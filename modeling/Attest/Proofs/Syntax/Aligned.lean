/-
  Reading tokens that are aligned: they are related one by one, the same operators stand at them,
  and the second list may have more comments in between. The reader takes the same way through both
  lists, so it reads alike trees. Main statement: `parseTokens_alike`.
-/
import Attest.Proofs.Syntax.Grammar

namespace Attest.Syntax

open Syntax.Tree (tokensAll preorderAll)

variable {R : Token → Token → Prop} {E : Token → Prop} {ts us : List Token} {xs ys : List Tree}

/-! ## Aligned tokens -/

/-- Tokens that `R` relates one by one, between which the second list may have tokens of `E`. -/
inductive Aligned (R : Token → Token → Prop) (E : Token → Prop) : List Token → List Token → Prop
  | nil : Aligned R E [] []
  | cons {t u ts us} (h : R t u) (hop : operatorAt (u :: us) = operatorAt (t :: ts))
      (hs : Aligned R E ts us) : Aligned R E (t :: ts) (u :: us)
  | extra {e ts us} (h : E e) (hne : ts ≠ []) (hs : Aligned R E ts us) : Aligned R E ts (e :: us)

/-- Related tokens read alike, a mark is one character, and only comments are extra. -/
structure Alignment (R : Token → Token → Prop) (E : Token → Prop) : Prop where
  like : ∀ t u, R t u → t.Like u
  kind : ∀ t u, R t u → u.kind = t.kind
  mark : ∀ t u, R t u → u.kind = .mark → u.text.toList.length = 1
  extra : ∀ e, E e → e.isComment = true

theorem Aligned.interleaved (h : Aligned R E ts us) : Interleaved R E ts us := by
  induction h with
  | nil => exact .nil
  | cons h _ _ ih => exact .cons h ih
  | extra h hne _ ih => exact .extra h hne ih

namespace Alignment

variable (hA : Alignment R E)
include hA

theorem isComment_eq {t u : Token} (h : R t u) : u.isComment = t.isComment := by
  rw [Token.isComment, Token.isComment, hA.kind t u h]

theorem commentLeaf_alike {t u : Token} (h : R t u) :
    (commentLeaf t).Alike R E (commentLeaf u) := by
  rw [commentLeaf, commentLeaf, hA.kind t u h]
  refine .leaf h fun tk htk => ?_
  split at htk <;> contradiction

/-- In front of the first tokens that are no comments there are alike comments. -/
theorem split (h : Aligned R E ts us) :
    (significant ts = [] ∧ significant us = []) ∨
    ∃ t ts' u us', significant ts = t :: ts' ∧ significant us = u :: us' ∧
      Aligned R E (t :: ts') (u :: us') ∧ R t u ∧ Aligned R E ts' us' ∧
      operatorAt (u :: us') = operatorAt (t :: ts') ∧
      ∀ xs ys, xs ≠ [] → AllAlike R E xs ys →
        AllAlike R E ((comments ts).map commentLeaf ++ xs) ((comments us).map commentLeaf ++ ys) := by
  induction h with
  | nil => exact Or.inl ⟨rfl, rfl⟩
  | @cons t u ts us h hop hs ih =>
    have hsame := hA.isComment_eq h
    rw [significant, significant, comments, comments, List.dropWhile_cons, List.dropWhile_cons,
      List.takeWhile_cons, List.takeWhile_cons, hsame]
    by_cases hcomment : t.isComment = true
    · simp only [hcomment, if_true]
      rcases ih with hnil | ⟨t', ts', u', us', hts, hus, hall, hR, hs', hop', hcomments⟩
      · exact Or.inl hnil
      · refine Or.inr ⟨t', ts', u', us', hts, hus, hall, hR, hs', hop', fun xs ys hne hxy => ?_⟩
        exact .cons (hA.commentLeaf_alike h) (hcomments xs ys hne hxy)
    · simp only [hcomment, if_false, Bool.false_eq_true]
      exact Or.inr ⟨t, ts, u, us, rfl, rfl, .cons h hop hs, h, hs, hop, fun _ _ _ hxy => hxy⟩
  | @extra e ts us h hne _ ih =>
    have hcomment := hA.extra e h
    have hsignificant : significant (e :: us) = significant us :=
      List.dropWhile_cons_of_pos hcomment
    have hcomments : comments (e :: us) = e :: comments us := List.takeWhile_cons_of_pos hcomment
    rw [hsignificant, hcomments]
    rcases ih with hnil | ⟨t', ts', u', us', hts, hus, hall, hR, hs', hop', hcomments⟩
    · exact Or.inl hnil
    · refine Or.inr ⟨t', ts', u', us', hts, hus, hall, hR, hs', hop', fun xs ys hne' hxy => ?_⟩
      exact .extra ⟨e, h, rfl⟩ (by simp [hne']) (hcomments xs ys hne' hxy)

/-- The first tokens are related one by one as long as the second list has no comments there. -/
theorem take (h : Aligned R E ts us) {n : Nat} (hn : ∀ u ∈ us.take n, u.isComment = false) :
    List.Forall₂ R (ts.take n) (us.take n) ∧ Aligned R E (ts.drop n) (us.drop n) := by
  induction h generalizing n with
  | nil => simpa using Aligned.nil
  | @cons t u ts us h hop hs ih =>
    cases n with
    | zero => exact ⟨.nil, .cons h hop hs⟩
    | succ n =>
      rw [List.take_succ_cons, List.forall_mem_cons] at hn
      obtain ⟨htake, hdrop⟩ := ih hn.2
      exact ⟨.cons h htake, hdrop⟩
  | @extra e ts us h hne hs ih =>
    cases n with
    | zero => exact ⟨.nil, .extra h hne hs⟩
    | succ n =>
      rw [List.take_succ_cons, List.forall_mem_cons, hA.extra e h] at hn
      exact absurd hn.1 (by decide)

end Alignment

/-! ## Operators -/

/-- Every character of adjoining marks is one token. -/
theorem mark_of_adjoining {n : Nat} {us : List Token} {l : List Char}
    (hmarks : ∀ u ∈ us, u.kind = .mark → u.text.toList.length = 1) (h : l <+: adjoining n us) :
    ∀ u ∈ us.take l.length, u.kind = .mark := by
  induction n generalizing us l with
  | zero =>
    obtain rfl := List.prefix_nil.mp (by simpa [adjoining] using h)
    simp
  | succ n ih =>
    cases us with
    | nil => simp
    | cons t us =>
      simp only [adjoining] at h
      rw [List.forall_mem_cons] at hmarks
      split at h
      · next hkind =>
        have hkind := eq_of_beq hkind
        obtain ⟨c, hc⟩ := List.length_eq_one_iff.mp (hmarks.1 hkind)
        rw [hc, List.singleton_append, List.prefix_cons_iff] at h
        rcases h with rfl | ⟨l', rfl, hl'⟩
        · simp
        · rw [List.length_cons, List.take_succ_cons, List.forall_mem_cons]
          refine ⟨hkind, ?_⟩
          cases us with
          | nil => simp
          | cons u us =>
            dsimp only at hl'
            split at hl'
            · exact ih hmarks.2 hl'
            · obtain rfl := List.prefix_nil.mp hl'
              simp
      · obtain rfl := List.prefix_nil.mp h
        simp

theorem operatorAt_isPrefix (us : List Token) : (operatorAt us).toList <+: adjoining 3 us := by
  unfold operatorAt
  dsimp only
  generalize ho : longOperators.find? (fun o => o.toList.isPrefixOf (adjoining 3 us)) = o
  cases o with
  | none =>
    rw [Option.getD_none, String.toList_ofList]
    exact List.take_prefix 1 _
  | some o =>
    have := List.find?_some ho
    exact List.isPrefixOf_iff_prefix.mp this

/-- All tokens of an operator are marks. -/
theorem mark_of_operatorAt {us : List Token}
    (hmarks : ∀ u ∈ us, u.kind = .mark → u.text.toList.length = 1) :
    ∀ u ∈ us.take (operatorAt us).length, u.kind = .mark := by
  rw [← String.length_toList]
  exact mark_of_adjoining hmarks (operatorAt_isPrefix us)

/-! ## Forests -/

theorem AllAlike.label (h : AllAlike R E xs ys) (r : Role) :
    AllAlike R E (Tree.label r xs) (Tree.label r ys) := by
  refine Interleaved.map (fun x y hxy => ?_) (fun y hy => ?_) h
  · rw [hxy.isComment_eq]
    split
    · exact hxy
    · exact hxy.withRole r
  · rwa [if_pos hy.isComment]

/-- In front of the first trees that are no comments there are alike comments. -/
theorem AllAlike.split (h : AllAlike R E xs ys) :
    (xs.dropWhile Tree.isComment = [] ∧ ys.dropWhile Tree.isComment = []) ∨
    ∃ x xs' y ys', xs.dropWhile Tree.isComment = x :: xs' ∧
      ys.dropWhile Tree.isComment = y :: ys' ∧ x.Alike R E y ∧ AllAlike R E xs' ys' ∧
      ∀ zs ws, zs ≠ [] → AllAlike R E zs ws →
        AllAlike R E (xs.takeWhile Tree.isComment ++ zs) (ys.takeWhile Tree.isComment ++ ws) := by
  induction h with
  | nil => exact Or.inl ⟨rfl, rfl⟩
  | @cons x y xs ys hxy hs ih =>
    rw [List.dropWhile_cons, List.dropWhile_cons, List.takeWhile_cons, List.takeWhile_cons,
      hxy.isComment_eq]
    by_cases hcomment : x.isComment = true
    · simp only [hcomment, if_true]
      rcases ih with hnil | ⟨x', xs', y', ys', hxs, hys, hx'y', hs', hcomments⟩
      · exact Or.inl hnil
      · exact Or.inr ⟨x', xs', y', ys', hxs, hys, hx'y', hs', fun zs ws hne hzw =>
          .cons hxy (hcomments zs ws hne hzw)⟩
    · simp only [hcomment, if_false, Bool.false_eq_true]
      exact Or.inr ⟨x, xs, y, ys, rfl, rfl, hxy, hs, fun _ _ _ hzw => hzw⟩
  | @extra y xs ys hy hne _ ih =>
    rw [List.dropWhile_cons_of_pos hy.isComment, List.takeWhile_cons_of_pos hy.isComment]
    rcases ih with hnil | ⟨x', xs', y', ys', hxs, hys, hx'y', hs', hcomments⟩
    · exact Or.inl hnil
    · exact Or.inr ⟨x', xs', y', ys', hxs, hys, hx'y', hs', fun zs ws hne' hzw =>
        .extra hy (by simp [hne']) (hcomments zs ws hne' hzw)⟩

theorem AllAlike.wrap (hA : Alignment R E) (h : AllAlike R E xs ys) {kind : List Tree → Kind}
    (hkind : BlindKind kind) : AllAlike R E (Tree.wrap kind xs) (Tree.wrap kind ys) := by
  rcases h.split with ⟨hxs, hys⟩ | ⟨x, xs', y, ys', hxs, hys, hxy, hs, hcomments⟩
  · rwa [Tree.wrap_of_nil kind hxs, Tree.wrap_of_nil kind hys]
  · obtain ⟨s, hs₁⟩ := Tree.wrap_of_cons kind hxs
    obtain ⟨s', hs₂⟩ := Tree.wrap_of_cons kind hys
    rw [hs₁, hs₂, hkind R E hA.like _ _ (.cons hxy hs)]
    exact hcomments _ _ (by simp) (.singleton (.node hxy hs))

theorem AllAlike.lastKind_eq (h : AllAlike R E xs ys) : lastKind ys = lastKind xs := by
  have hlast := h.getLast?
  unfold lastKind
  generalize xs.getLast? = x at hlast
  generalize ys.getLast? = y at hlast
  cases hlast with
  | none => rfl
  | some hxy => exact hxy.kind_eq

/-! ## Reading -/

variable {ν : Type} {grammar : ν → Form ν}

/-- Alike trees have been read, and aligned tokens are left. -/
def ReadAlike (R : Token → Token → Prop) (E : Token → Prop) (p q : List Tree × List Token) : Prop :=
  AllAlike R E p.1 q.1 ∧ Aligned R E p.2 q.2

/-- What is read is put into alike trees. -/
theorem map_readAlike {f : List Tree → List Tree} {p q : Option (List Tree × List Token)}
    (hf : ∀ {xs ys}, AllAlike R E xs ys → AllAlike R E (f xs) (f ys))
    (h : Option.Rel (ReadAlike R E) p q) :
    Option.Rel (ReadAlike R E) (p.map fun (xs, rest) => (f xs, rest))
      (q.map fun (ys, rest) => (f ys, rest)) := by
  cases h with
  | none => exact .none
  | some hpq => exact .some ⟨hf hpq.1, hpq.2⟩

/-- Tokens and kinds of nodes are blind to what may differ. -/
def blind : Condition ν where
  token := BlindToken
  node kind _ := BlindKind kind
  link _ _ _ := True

theorem rust_blind (name : Rule) : (rust name).Every blind :=
  Form.Every.imp (C := rustCondition) (D := blind) (fun _ _ h => h) (fun _ _ h => h.1)
    (fun _ _ _ _ => trivial) (rust_every name)

theorem markLeaves_alike (h : List.Forall₂ R ts us) :
    AllAlike R E (ts.map (Tree.leaf .plain .mark ·)) (us.map (Tree.leaf .plain .mark ·)) := by
  induction h with
  | nil => exact .nil
  | cons htu _ ih => exact .cons (.leaf htu fun tk htk => by contradiction) ih

/-- What two searches find first is related, if what they make of each entry is. -/
theorem findSome?_alike {α β γ : Type} {P : β → γ → Prop} {f : α → Option β} {g : α → Option γ}
    {l : List α} (h : ∀ a ∈ l, Option.Rel P (f a) (g a)) :
    Option.Rel P (l.findSome? f) (l.findSome? g) := by
  induction l with
  | nil => exact .none
  | cons a as ih =>
    rw [List.forall_mem_cons] at h
    have hhead := h.1
    rw [List.findSome?_cons, List.findSome?_cons]
    generalize f a = x at hhead
    generalize g a = y at hhead
    cases hhead with
    | none => exact ih h.2
    | some hxy => exact .some hxy

section

variable (hA : Alignment R E)
include hA

theorem readToken_alike {accepts : Token → Bool} {kind : Token → Kind}
    (hblind : BlindToken accepts kind) (hlawful : ∀ t, accepts t = true → (kind t).Fits t)
    (h : Aligned R E ts us) :
    Option.Rel (ReadAlike R E) (readToken accepts kind ts) (readToken accepts kind us) := by
  unfold readToken
  rcases hA.split h with ⟨hts, hus⟩ | ⟨t, ts', u, us', hts, hus, -, htu, hs, -, hcomments⟩
  · rw [hts, hus]
    exact .none
  · rw [hts, hus]
    dsimp only
    obtain ⟨haccepts, hkind⟩ := hblind t u (hA.kind t u htu) (hA.like t u htu)
    rw [haccepts, hkind]
    split
    · next hacc =>
      exact .some ⟨hcomments _ _ (by simp) (.singleton (.leaf htu (hlawful t hacc))), hs⟩
    · exact .none

theorem Alignment.mark_of_mem (h : Aligned R E ts us) :
    ∀ u ∈ us, u.kind = .mark → u.text.toList.length = 1 := by
  induction h with
  | nil => simp
  | cons htu _ _ ih => exact List.forall_mem_cons.mpr ⟨hA.mark _ _ htu, ih⟩
  | @extra e _ _ he _ _ ih =>
    refine List.forall_mem_cons.mpr ⟨fun hmark => ?_, ih⟩
    have hcomment := hA.extra e he
    rw [Token.isComment, hmark] at hcomment
    contradiction

theorem readOperator_alike (spelling : String) (h : Aligned R E ts us) :
    Option.Rel (ReadAlike R E) (readOperator spelling ts) (readOperator spelling us) := by
  unfold readOperator
  dsimp only
  rcases hA.split h with ⟨hts, hus⟩ | ⟨t, ts', u, us', hts, hus, hall, -, -, hop, hcomments⟩
  · rw [hts, hus]
    split
    · next hspelling =>
      rw [Bool.and_eq_true, decide_eq_true_iff] at hspelling
      obtain ⟨rfl, hne⟩ := hspelling
      contradiction
    · exact .none
  · rw [hts, hus, hop]
    split
    · next hspelling =>
      rw [Bool.and_eq_true, decide_eq_true_iff] at hspelling
      have hmark := mark_of_operatorAt (hA.mark_of_mem hall)
      rw [hop, hspelling.1] at hmark
      obtain ⟨htake, hdrop⟩ := hA.take hall fun x hx => by
        rw [Token.isComment, hmark x hx]
        rfl
      refine .some ⟨hcomments _ _ ?_ (markLeaves_alike htake), hdrop⟩
      intro hnil
      rw [List.map_eq_nil_iff, List.take_eq_nil_iff] at hnil
      rcases hnil with hlength | hnil
      · obtain rfl := String.length_eq_zero_iff.mp hlength
        exact absurd hspelling.2 (by decide)
      · contradiction
    · exact .none

/-- Reading with this much fuel takes the same way through aligned tokens. -/
def ReadsAlikeWith (R : Token → Token → Prop) (E : Token → Prop) (grammar : ν → Form ν)
    (fuel : Nat) : Prop :=
  ∀ form ts us, form.Lawful → form.Every blind → Aligned R E ts us →
    Option.Rel (ReadAlike R E) (read grammar fuel form ts) (read grammar fuel form us)

/-- So does growing what has been read. -/
def GrowsAlikeWith (R : Token → Token → Prop) (E : Token → Prop) (grammar : ν → Form ν)
    (fuel : Nat) : Prop :=
  ∀ links xs ys ts us, LawfulLinks links → EveryLink blind links → AllAlike R E xs ys →
    Aligned R E ts us →
    ReadAlike R E (extend grammar fuel links xs ts) (extend grammar fuel links ys us)

theorem readsAlikeWith_succ (hlawful : ∀ name, (grammar name).Lawful)
    (hblind : ∀ name, (grammar name).Every blind) {fuel : Nat}
    (hread : ReadsAlikeWith R E grammar fuel) (hextend : GrowsAlikeWith R E grammar fuel) :
    ReadsAlikeWith R E grammar (fuel + 1) := by
  intro form ts us hform hevery h
  cases form with
  | empty =>
    rw [read, read]
    exact .some ⟨.nil, h⟩
  | token accepts kind =>
    rw [Form.Lawful] at hform
    rw [Form.Every] at hevery
    rw [read, read]
    exact readToken_alike hA hevery hform h
  | operator spelling =>
    rw [read, read]
    exact readOperator_alike hA spelling h
  | seq first second =>
    rw [Form.Lawful] at hform
    rw [Form.Every] at hevery
    rw [read, read]
    have hfirst := hread first ts us hform.1 hevery.1 h
    generalize read grammar fuel first ts = p at hfirst
    generalize read grammar fuel first us = q at hfirst
    cases hfirst with
    | none => exact .none
    | @some p q hpq =>
      have hsecond := hread second p.2 q.2 hform.2 hevery.2 hpq.2
      dsimp only
      generalize read grammar fuel second p.2 = p' at hsecond
      generalize read grammar fuel second q.2 = q' at hsecond
      cases hsecond with
      | none => exact .none
      | some hpq' => exact .some ⟨hpq.1.append hpq'.1, hpq'.2⟩
  | alt first second =>
    rw [Form.Lawful] at hform
    rw [Form.Every] at hevery
    rw [read, read]
    have hfirst := hread first ts us hform.1 hevery.1 h
    generalize read grammar fuel first ts = p at hfirst
    generalize read grammar fuel first us = q at hfirst
    cases hfirst with
    | none => exact hread second ts us hform.2 hevery.2 h
    | some hpq => exact .some hpq
  | many item =>
    rw [read, read]
    have hitem := hread item ts us (by rwa [Form.Lawful] at hform) (by rwa [Form.Every] at hevery) h
    generalize read grammar fuel item ts = p at hitem
    generalize read grammar fuel item us = q at hitem
    cases hitem with
    | none => exact .some ⟨.nil, h⟩
    | @some p q hpq =>
      have hmore := hread (.many item) p.2 q.2 hform hevery hpq.2
      dsimp only
      generalize read grammar fuel (.many item) p.2 = p' at hmore
      generalize read grammar fuel (.many item) q.2 = q' at hmore
      cases hmore with
      | none => exact .some hpq
      | some hpq' => exact .some ⟨hpq.1.append hpq'.1, hpq'.2⟩
  | «unless» absent =>
    rw [Form.Lawful] at hform
    rw [Form.Every] at hevery
    rw [read, read]
    have habsent := hread absent ts us hform hevery h
    generalize read grammar fuel absent ts = p at habsent
    generalize read grammar fuel absent us = q at habsent
    cases habsent with
    | none => exact .some ⟨.nil, h⟩
    | some => exact .none
  | role r form =>
    rw [Form.Lawful] at hform
    rw [Form.Every] at hevery
    rw [read, read]
    exact map_readAlike (fun hxy => hxy.label r) (hread form ts us hform.2 hevery h)
  | node kind form =>
    rw [Form.Lawful] at hform
    rw [Form.Every] at hevery
    rw [read, read]
    exact map_readAlike (fun hxy => hxy.wrap hA hevery.1) (hread form ts us hform hevery.2 h)
  | grow base links =>
    rw [Form.Lawful] at hform
    rw [Form.Every] at hevery
    rw [read, read]
    have hbase := hread base ts us hform.1 hevery.1 h
    generalize read grammar fuel base ts = p at hbase
    generalize read grammar fuel base us = q at hbase
    cases hbase with
    | none => exact .none
    | some hpq => exact .some (hextend links _ _ _ _ hform.2 hevery.2 hpq.1 hpq.2)
  | rule name =>
    rw [read, read]
    exact hread _ ts us (hlawful name) (hblind name) h

theorem growsAlikeWith_succ {fuel : Nat}
    (hread : ReadsAlikeWith R E grammar fuel) (hextend : GrowsAlikeWith R E grammar fuel) :
    GrowsAlikeWith R E grammar (fuel + 1) := by
  intro links xs ys ts us hlinks hevery hxy h
  rw [extend, extend, hxy.lastKind_eq]
  generalize hp : List.findSome? _ links = p
  generalize hq : List.findSome? _ links = q
  -- Both sides go on with the same link, or neither does with any.
  have hfound : Option.Rel (fun p q : Kind × Role × List Tree × List Token =>
      p.1 = q.1 ∧ p.2.1 = q.2.1 ∧ ReadAlike R E p.2.2 q.2.2) p q := by
    rw [← hp, ← hq]
    refine findSome?_alike ?_
    rintro ⟨behind, kind, role, form⟩ hmem
    dsimp only
    split
    · have hform := hread form ts us (hlinks.of_mem hmem).2 (everyLink_iff.mp hevery _ hmem).2 h
      generalize read grammar fuel form ts = p at hform
      generalize read grammar fuel form us = q at hform
      cases hform with
      | none => exact .none
      | some hpq => exact .some ⟨rfl, rfl, hpq⟩
    · exact .none
  clear hp hq
  cases hfound with
  | none => exact ⟨hxy, h⟩
  | @some p q hpq =>
    obtain ⟨kind, role, zs, rest⟩ := p
    obtain ⟨kind', role', ws, rest'⟩ := q
    obtain ⟨rfl, rfl, hzw, hrest⟩ := hpq
    have hall : AllAlike R E (Tree.label role xs ++ zs) (Tree.label role ys ++ ws) :=
      (hxy.label role).append hzw
    exact hextend links _ _ _ _ hlinks hevery (hall.wrap hA fun _ _ _ _ _ _ => rfl) hrest

/-- Any fuel will do. -/
theorem readsAlike (hlawful : ∀ name, (grammar name).Lawful)
    (hblind : ∀ name, (grammar name).Every blind) (fuel : Nat) :
    ReadsAlikeWith R E grammar fuel ∧ GrowsAlikeWith R E grammar fuel := by
  induction fuel with
  | zero =>
    refine ⟨fun form ts us _ _ _ => ?_, fun links xs ys ts us _ _ hxy h => ?_⟩
    · rw [read, read]
      exact .none
    · rw [extend, extend]
      exact ⟨hxy, h⟩
  | succ fuel ih =>
    exact ⟨readsAlikeWith_succ hA hlawful hblind ih.1 ih.2, growsAlikeWith_succ hA ih.1 ih.2⟩

end

theorem strayLeaves_alike (hA : Alignment R E) (h : Aligned R E ts us) :
    AllAlike R E (ts.map strayLeaf) (us.map strayLeaf) := by
  refine h.interleaved.map (fun t u htu => ?_) fun e he => ?_
  · rw [strayLeaf, strayLeaf, hA.isComment_eq htu]
    split
    · exact hA.commentLeaf_alike htu
    · exact .leaf htu fun tk htk => by contradiction
  · rw [strayLeaf, if_pos (hA.extra e he)]
    exact ⟨e, he, rfl⟩

/-- Aligned tokens are read into alike trees. -/
theorem parseTokens_alike (hA : Alignment R E) (h : Aligned R E ts us) :
    AllAlike R E (parseTokens ts) (parseTokens us) := by
  have hfuel : parseFuel us = parseFuel ts := by
    have hlength := (h.interleaved.filter (p := fun t => !t.isComment) (q := fun u => !u.isComment)
      (fun t u htu => by rw [hA.isComment_eq htu]) fun e he => by simp [hA.extra e he]).length_eq
    rw [parseFuel, parseFuel, hlength]
  have hread := (readsAlike hA rust_lawful rust_blind (parseFuel ts)).1 (.rule .file) ts us
    (by rw [Form.Lawful]; trivial) (by rw [Form.Every]; trivial) h
  unfold parseTokens
  rw [hfuel]
  generalize read rust (parseFuel ts) (.rule .file) ts = p at hread
  generalize read rust (parseFuel ts) (.rule .file) us = q at hread
  cases hread with
  | none => exact strayLeaves_alike hA h
  | some hpq => exact hpq.1.append (strayLeaves_alike hA hpq.2)

end Attest.Syntax
