/-
  Reading a form. `Reads` is the grammar as a relation: it says which forests a form can read off
  which tokens, whatever of its choices are taken. The reader only gives such forests
  (`reads_of_read`), and three facts follow by induction on the derivation:
  * no token is lost (`Reads.tokens_eq`);
  * every node spans exactly its tokens (`Reads.tight`);
  * leaves are what their kinds say and only members of an expression play a field
    (`Reads.lawful`), if the forms of the grammar are `Lawful`.
-/
import Attest.Syntax.Form
import Attest.Proofs.Syntax.Tree

namespace Attest.Syntax

open Syntax.Tree (tokensAll preorderAll)

variable {ν : Type} {grammar : ν → Form ν}

/-- The forests that a form can read, with the tokens in front of it and behind it. -/
inductive Reads (grammar : ν → Form ν) : Form ν → List Token → List Tree → List Token → Prop
  | empty {ts} : Reads grammar .empty ts [] ts
  | token {accepts kind cs t rest} (hc : ∀ c ∈ cs, c.isComment = true) (ht : accepts t = true) :
      Reads grammar (.token accepts kind) (cs ++ t :: rest)
        (cs.map commentLeaf ++ [.leaf .plain (kind t) t]) rest
  | operator {spelling cs marks rest} (hc : ∀ c ∈ cs, c.isComment = true) :
      Reads grammar (.operator spelling) (cs ++ (marks ++ rest))
        (cs.map commentLeaf ++ marks.map (Tree.leaf .plain .mark ·)) rest
  | seq {first second ts xs mid ys rest} (hf : Reads grammar first ts xs mid)
      (hs : Reads grammar second mid ys rest) : Reads grammar (.seq first second) ts (xs ++ ys) rest
  | left {first second ts xs rest} (h : Reads grammar first ts xs rest) :
      Reads grammar (.alt first second) ts xs rest
  | right {first second ts xs rest} (h : Reads grammar second ts xs rest) :
      Reads grammar (.alt first second) ts xs rest
  | stop {item ts} : Reads grammar (.many item) ts [] ts
  | more {item ts xs mid ys rest} (hi : Reads grammar item ts xs mid)
      (hm : Reads grammar (.many item) mid ys rest) : Reads grammar (.many item) ts (xs ++ ys) rest
  | absent {form ts} : Reads grammar (.unless form) ts [] ts
  | role {r form ts xs rest} (h : Reads grammar form ts xs rest) :
      Reads grammar (.role r form) ts (Tree.label r xs) rest
  | node {kind form ts xs rest} (h : Reads grammar form ts xs rest) :
      Reads grammar (.node kind form) ts (Tree.wrap kind xs) rest
  | base {base links ts xs rest} (h : Reads grammar base ts xs rest) :
      Reads grammar (.grow base links) ts xs rest
  | link {base links behind kind role form ts xs mid ys rest}
      (hb : Reads grammar (.grow base links) ts xs mid) (hl : (behind, kind, role, form) ∈ links)
      (hf : Reads grammar form mid ys rest) :
      Reads grammar (.grow base links) ts
        (Tree.wrap (fun _ => kind) (Tree.label role xs ++ ys)) rest
  | rule {name ts xs rest} (h : Reads grammar (grammar name) ts xs rest) :
      Reads grammar (.rule name) ts xs rest

/-! ## The reader follows the grammar -/

theorem comments_isComment (ts : List Token) : ∀ c ∈ comments ts, c.isComment = true :=
  fun c hc => List.all_eq_true.mp List.all_takeWhile c hc

theorem comments_append_significant (ts : List Token) : comments ts ++ significant ts = ts :=
  List.takeWhile_append_dropWhile

theorem reads_of_readToken {accepts : Token → Bool} {kind : Token → Kind} {ts rest : List Token}
    {xs : List Tree} (h : readToken accepts kind ts = some (xs, rest)) :
    Reads grammar (.token accepts kind) ts xs rest := by
  have hsplit := comments_append_significant ts
  unfold readToken at h
  split at h
  · next t tail hsig =>
    split at h
    · next hacc =>
      obtain ⟨rfl, rfl⟩ := Prod.mk.inj (Option.some.inj h)
      rw [hsig] at hsplit
      conv => arg 3; rw [← hsplit]
      exact .token (comments_isComment ts) hacc
    · contradiction
  · contradiction

theorem reads_of_readOperator {spelling : String} {ts rest : List Token} {xs : List Tree}
    (h : readOperator spelling ts = some (xs, rest)) :
    Reads grammar (.operator spelling) ts xs rest := by
  have hsplit := comments_append_significant ts
  unfold readOperator at h
  dsimp only at h
  split at h
  · obtain ⟨rfl, rfl⟩ := Prod.mk.inj (Option.some.inj h)
    conv => arg 3; rw [← hsplit, ← List.take_append_drop spelling.length (significant ts)]
    exact .operator (comments_isComment ts)
  · contradiction

/-- Reading with this much fuel stays within the grammar. -/
def ReadsWith (grammar : ν → Form ν) (fuel : Nat) : Prop :=
  ∀ form ts xs rest, read grammar fuel form ts = some (xs, rest) → Reads grammar form ts xs rest

/-- So does growing what has been read. -/
def GrowsWith (grammar : ν → Form ν) (fuel : Nat) : Prop :=
  ∀ base links ts xs mid, Reads grammar (.grow base links) ts xs mid →
    Reads grammar (.grow base links) ts (extend grammar fuel links xs mid).1
      (extend grammar fuel links xs mid).2

theorem readsWith_succ {fuel : Nat} (hread : ReadsWith grammar fuel)
    (hextend : GrowsWith grammar fuel) : ReadsWith grammar (fuel + 1) := by
  intro form ts xs rest h
  rw [read.eq_def] at h
  dsimp only at h
  split at h
  · obtain ⟨rfl, rfl⟩ := Prod.mk.inj (Option.some.inj h)
    exact .empty
  · exact reads_of_readToken h
  · exact reads_of_readOperator h
  · split at h
    · contradiction
    · next hf =>
      split at h
      · contradiction
      · next hs =>
        obtain ⟨rfl, rfl⟩ := Prod.mk.inj (Option.some.inj h)
        exact .seq (hread _ _ _ _ hf) (hread _ _ _ _ hs)
  · split at h
    · next hf =>
      obtain rfl := Option.some.inj h
      exact .left (hread _ _ _ _ hf)
    · exact .right (hread _ _ _ _ h)
  · split at h
    · obtain ⟨rfl, rfl⟩ := Prod.mk.inj (Option.some.inj h)
      exact .stop
    · next hi =>
      split at h
      · obtain ⟨rfl, rfl⟩ := Prod.mk.inj (Option.some.inj h)
        have := Reads.more (hread _ _ _ _ hi) Reads.stop
        rwa [List.append_nil] at this
      · next hm =>
        obtain ⟨rfl, rfl⟩ := Prod.mk.inj (Option.some.inj h)
        exact .more (hread _ _ _ _ hi) (hread _ _ _ _ hm)
  · split at h
    · contradiction
    · obtain ⟨rfl, rfl⟩ := Prod.mk.inj (Option.some.inj h)
      exact .absent
  · obtain ⟨⟨ys, tail⟩, hr, heq⟩ := Option.map_eq_some_iff.mp h
    obtain ⟨rfl, rfl⟩ := Prod.mk.inj heq
    exact .role (hread _ _ _ _ hr)
  · obtain ⟨⟨ys, tail⟩, hr, heq⟩ := Option.map_eq_some_iff.mp h
    obtain ⟨rfl, rfl⟩ := Prod.mk.inj heq
    exact .node (hread _ _ _ _ hr)
  · split at h
    · contradiction
    · next base links _ ys tail hbase =>
      have := hextend base links ts ys tail (.base (hread _ _ _ _ hbase))
      rwa [Option.some.inj h] at this
  · exact .rule (hread _ _ _ _ h)

theorem growsWith_succ {fuel : Nat} (hread : ReadsWith grammar fuel)
    (hextend : GrowsWith grammar fuel) : GrowsWith grammar (fuel + 1) := by
  intro base links ts xs mid hb
  rw [extend.eq_def]
  dsimp only
  split
  · exact hb
  · next kind role ys tail hfound =>
    obtain ⟨⟨behind, kind', role', form⟩, hmem, hstep⟩ :=
      List.exists_of_findSome?_eq_some hfound
    dsimp only at hstep
    split at hstep
    · obtain ⟨⟨zs, end'⟩, hr, heq⟩ := Option.map_eq_some_iff.mp hstep
      simp only [Prod.mk.injEq] at heq
      obtain ⟨rfl, rfl, rfl, rfl⟩ := heq
      exact hextend _ _ _ _ _ (.link hb hmem (hread _ _ _ _ hr))
    · contradiction

/-- Any fuel will do. -/
theorem reads_of_fuel (fuel : Nat) : ReadsWith grammar fuel ∧ GrowsWith grammar fuel := by
  induction fuel with
  | zero =>
    exact ⟨fun _ _ _ _ h => by simp [read] at h, fun _ _ _ _ _ h => by simpa [extend] using h⟩
  | succ fuel ih => exact ⟨readsWith_succ ih.1 ih.2, growsWith_succ ih.1 ih.2⟩

theorem reads_of_read {fuel : Nat} {form : Form ν} {ts rest : List Token} {xs : List Tree}
    (h : read grammar fuel form ts = some (xs, rest)) : Reads grammar form ts xs rest :=
  (reads_of_fuel fuel).1 form ts xs rest h

/-! ## No token is lost -/

theorem tokensAll_map_leaf (f : Token → Tree) (hf : ∀ t, (f t).tokens = [t]) (ts : List Token) :
    tokensAll (ts.map f) = ts := by
  induction ts with
  | nil => rfl
  | cons t ts ih => simp [tokensAll, hf, ih]

theorem tokens_commentLeaf (t : Token) : (commentLeaf t).tokens = [t] := by
  rw [commentLeaf, Tree.tokens_leaf]

/-- What has been read and what is left are the tokens that were there. -/
theorem Reads.tokens_eq {form : Form ν} {ts rest : List Token} {xs : List Tree}
    (h : Reads grammar form ts xs rest) : tokensAll xs ++ rest = ts := by
  induction h with
  | empty => rfl
  | token hc ht =>
    rw [Tree.tokensAll_append, tokensAll_map_leaf _ tokens_commentLeaf]
    simp [tokensAll, Tree.tokens_leaf]
  | operator hc =>
    rw [Tree.tokensAll_append, tokensAll_map_leaf _ tokens_commentLeaf,
      tokensAll_map_leaf _ (Tree.tokens_leaf _ _), List.append_assoc]
  | seq _ _ ihf ihs => rw [Tree.tokensAll_append, List.append_assoc, ihs, ihf]
  | left _ ih => exact ih
  | right _ ih => exact ih
  | stop => rfl
  | more _ _ ihi ihm => rw [Tree.tokensAll_append, List.append_assoc, ihm, ihi]
  | absent => rfl
  | role _ ih => rw [Tree.tokensAll_label, ih]
  | node _ ih => rw [Tree.tokensAll_wrap, ih]
  | base _ ih => exact ih
  | link _ _ _ ihb ihf =>
    rw [Tree.tokensAll_wrap, Tree.tokensAll_append, Tree.tokensAll_label, List.append_assoc, ihf,
      ihb]
  | rule _ ih => exact ih

/-! ## Nodes span their tokens -/

/-- The tree begins with its first token and ends with its last one. -/
def Tree.Tight (t : Tree) : Prop :=
  ∃ first last, t.tokens.head? = some first ∧ t.tokens.getLast? = some last ∧
    t.span = ⟨first.start, last.stop⟩

theorem Tree.tight_leaf (r : Role) (k : Kind) (t : Token) : (Tree.leaf r k t).Tight :=
  ⟨t, t, by simp [Tree.tokens], by simp [Tree.tokens], rfl⟩

theorem Tree.Tight.withRole {t : Tree} (h : t.Tight) (r : Role) : (t.withRole r).Tight := by
  obtain ⟨first, last, hf, hl, hs⟩ := h
  exact ⟨first, last, by rwa [tokens_withRole], by rwa [tokens_withRole], by rwa [span_withRole]⟩

/-- The first tree of a forest of tight trees begins with the first token of the forest. -/
theorem head?_tokensAll {ts : List Tree} {first : Tree} (h : ∀ t ∈ ts, t.Tight)
    (hfirst : ts.head? = some first) :
    ∃ t, (tokensAll ts).head? = some t ∧ first.span.start = t.start := by
  obtain ⟨rest, rfl⟩ := List.head?_eq_some_iff.mp hfirst
  obtain ⟨t, _, ht, -, hs⟩ := h first List.mem_cons_self
  refine ⟨t, ?_, by rw [hs]⟩
  rw [tokensAll, List.head?_append, ht]
  rfl

theorem getLast?_tokensAll {ts : List Tree} {last : Tree} (h : ∀ t ∈ ts, t.Tight)
    (hlast : ts.getLast? = some last) :
    ∃ t, (tokensAll ts).getLast? = some t ∧ last.span.stop = t.stop := by
  obtain ⟨_, t, -, ht, hs⟩ := h last (List.mem_of_getLast? hlast)
  exact ⟨t, Tree.tokensAll_getLast? hlast ht, by rw [hs]⟩

theorem Tree.tight_node {kind : Kind} {body : List Tree} {first last : Tree}
    (h : ∀ t ∈ body, t.Tight) (hfirst : body.head? = some first)
    (hlast : body.getLast? = some last) :
    (Tree.node .plain kind ⟨first.span.start, last.span.stop⟩ body).Tight := by
  obtain ⟨t, ht, hstart⟩ := head?_tokensAll h hfirst
  obtain ⟨u, hu, hstop⟩ := getLast?_tokensAll h hlast
  refine ⟨t, u, ?_, ?_, ?_⟩
  · rwa [tokens_node]
  · rwa [tokens_node]
  · rw [Tree.span, hstart, hstop]

theorem Tree.tight_wrap {kind : List Tree → Kind} {ts : List Tree}
    (h : ∀ u ∈ preorderAll ts, u.Tight) : ∀ u ∈ preorderAll (wrap kind ts), u.Tight :=
  forall_mem_wrap h fun _ _ _ hbody hfirst hlast =>
    tight_node (fun t ht => h t (mem_preorderAll.mpr ⟨t, hbody t ht, mem_preorder_self t⟩))
      hfirst hlast

theorem Tree.tight_label {r : Role} {ts : List Tree} (h : ∀ u ∈ preorderAll ts, u.Tight) :
    ∀ u ∈ preorderAll (label r ts), u.Tight :=
  forall_mem_label h fun _ _ _ ht => ht.withRole r

/-- In a forest of leaves there is nothing but the leaves. -/
theorem mem_preorderAll_map_leaf {f : Token → Tree} {r : Role} {kind : Token → Kind}
    (hf : ∀ t, f t = .leaf r (kind t) t) {ts : List Token} {u : Tree}
    (hu : u ∈ preorderAll (ts.map f)) : ∃ t ∈ ts, u = .leaf r (kind t) t := by
  obtain ⟨l, hl, hu⟩ := Tree.mem_preorderAll.mp hu
  obtain ⟨t, ht, rfl⟩ := List.mem_map.mp hl
  rw [hf, Tree.preorder_eq] at hu
  exact ⟨t, ht, by simpa [Tree.children, preorderAll] using hu⟩

/-- What is read from comments and the tokens behind them are leaves. -/
theorem mem_preorderAll_leaves (kind : Token → Kind) {cs : List Token} (ts : List Token) {u : Tree}
    (hu : u ∈ preorderAll (cs.map commentLeaf ++ ts.map fun t => .leaf .plain (kind t) t)) :
    (∃ t ∈ cs, u = commentLeaf t) ∨ ∃ t ∈ ts, u = .leaf .plain (kind t) t := by
  rw [Tree.preorderAll_append, List.mem_append] at hu
  rcases hu with hu | hu
  · obtain ⟨t, ht, rfl⟩ := mem_preorderAll_map_leaf (fun _ => rfl) hu
    exact Or.inl ⟨t, ht, rfl⟩
  · obtain ⟨t, ht, rfl⟩ := mem_preorderAll_map_leaf (fun _ => rfl) hu
    exact Or.inr ⟨t, ht, rfl⟩

/-- All trees that are read are tight. -/
theorem Reads.tight {form : Form ν} {ts rest : List Token} {xs : List Tree}
    (h : Reads grammar form ts xs rest) : ∀ u ∈ preorderAll xs, u.Tight := by
  induction h with
  | empty => simp [preorderAll]
  | @token _ kind cs t _ hc ht =>
    intro u hu
    rcases mem_preorderAll_leaves kind [t] hu with ⟨t, -, rfl⟩ | ⟨t, -, rfl⟩
    · exact Tree.tight_leaf _ _ _
    · exact Tree.tight_leaf _ _ _
  | operator hc =>
    intro u hu
    rcases mem_preorderAll_leaves (fun _ => .mark) _ hu with ⟨t, -, rfl⟩ | ⟨t, -, rfl⟩
    · exact Tree.tight_leaf _ _ _
    · exact Tree.tight_leaf _ _ _
  | seq _ _ ihf ihs => exact Tree.forall_mem_append ihf ihs
  | left _ ih => exact ih
  | right _ ih => exact ih
  | stop => simp [preorderAll]
  | more _ _ ihi ihm => exact Tree.forall_mem_append ihi ihm
  | absent => simp [preorderAll]
  | role _ ih => exact Tree.tight_label ih
  | node _ ih => exact Tree.tight_wrap ih
  | base _ ih => exact ih
  | link _ _ _ ihb ihf => exact Tree.tight_wrap (Tree.forall_mem_append (Tree.tight_label ihb) ihf)
  | rule _ ih => exact ih

/-! ## Lawful grammars -/

/-- The tokens that a kind of leaf is made of, where all are of one kind. -/
def Kind.token? : Kind → Option TokenKind
  | .integer => some .integer
  | .float => some .float
  | .char => some .char
  | .text => some .text
  | .rawText => some .rawText
  | .boolean | .name | .fieldName => some .word
  | _ => none

/-- A leaf of this kind may hold the token. -/
def Kind.Fits (k : Kind) (t : Token) : Prop := ∀ tk, k.token? = some tk → t.kind = tk

/-- A leaf holds a token that fits its kind, and a field is a name or a number. -/
structure Tree.Lawful (u : Tree) : Prop where
  fits : ∀ t, u.token? = some t → u.kind.Fits t
  field : u.role = .field → u.token?.isSome = true ∧ (u.kind = .fieldName ∨ u.kind = .integer)

/-- The form reads one token, as a name or number of a field. -/
def Form.IsField : Form ν → Prop
  | .token accepts kind => ∀ t, accepts t = true → kind t = .fieldName ∨ kind t = .integer
  | .alt first second => first.IsField ∧ second.IsField
  | _ => False

mutual

/-- The leaves that the form makes fit their tokens, and it names nothing a field but fields. -/
def Form.Lawful : Form ν → Prop
  | .empty | .operator _ | .rule _ => True
  | .token accepts kind => ∀ t, accepts t = true → (kind t).Fits t
  | .seq first second => first.Lawful ∧ second.Lawful
  | .alt first second => first.Lawful ∧ second.Lawful
  | .many item => item.Lawful
  | .unless absent => absent.Lawful
  | .role r form => (r = .field → form.IsField) ∧ form.Lawful
  | .node _ form => form.Lawful
  | .grow base links => base.Lawful ∧ LawfulLinks links

def LawfulLinks : List ((Kind → Bool) × Kind × Role × Form ν) → Prop
  | [] => True
  | (_, _, r, form) :: links => (r ≠ .field ∧ form.Lawful) ∧ LawfulLinks links

end

theorem LawfulLinks.of_mem {links : List ((Kind → Bool) × Kind × Role × Form ν)}
    (h : LawfulLinks links) {behind : Kind → Bool} {kind : Kind} {r : Role} {form : Form ν}
    (hmem : (behind, kind, r, form) ∈ links) : r ≠ .field ∧ form.Lawful := by
  induction links with
  | nil => simp at hmem
  | cons l links ih =>
    obtain ⟨b, k, r', f⟩ := l
    rw [LawfulLinks] at h
    rcases List.mem_cons.mp hmem with heq | hmem
    · simp only [Prod.mk.injEq] at heq
      obtain ⟨-, -, rfl, rfl⟩ := heq
      exact h.1
    · exact ih h.2 hmem

theorem Tree.lawful_commentLeaf (t : Token) : (commentLeaf t).Lawful := by
  refine ⟨fun u hu tk htk => ?_, fun h => by simp [commentLeaf, Tree.role] at h⟩
  simp only [commentLeaf, Tree.kind] at htk
  split at htk <;> simp [Kind.token?] at htk

theorem Tree.lawful_leaf {k : Kind} {t : Token} (h : k.Fits t) : (Tree.leaf .plain k t).Lawful := by
  refine ⟨fun u hu => ?_, fun h => by simp [Tree.role] at h⟩
  rw [← Option.some.inj hu]
  exact h

theorem Tree.lawful_node (k : Kind) (s : Text.Span) (cs : List Tree) :
    (Tree.node .plain k s cs).Lawful :=
  ⟨fun _ h => by simp [Tree.token?] at h, fun h => by simp [Tree.role] at h⟩

theorem Tree.Lawful.withRole {t : Tree} (h : t.Lawful) {r : Role}
    (hr : r = .field → t.token?.isSome = true ∧ (t.kind = .fieldName ∨ t.kind = .integer)) :
    (t.withRole r).Lawful := by
  constructor
  · rw [token?_withRole, kind_withRole]
    exact h.fits
  · rw [role_withRole, token?_withRole, kind_withRole]
    exact hr

theorem Tree.lawful_label {r : Role} {ts : List Tree} (h : ∀ u ∈ preorderAll ts, u.Lawful)
    (hr : r = .field → ∀ t ∈ ts, t.isComment = false →
      t.token?.isSome = true ∧ (t.kind = .fieldName ∨ t.kind = .integer)) :
    ∀ u ∈ preorderAll (label r ts), u.Lawful :=
  forall_mem_label h fun t ht hc hlawful => hlawful.withRole fun hf => hr hf t ht hc

/-- Besides comments the form of a field gives leaves for fields only. -/
theorem Reads.field {form : Form ν} {ts rest : List Token} {xs : List Tree}
    (h : Reads grammar form ts xs rest) (hf : form.IsField) :
    ∀ t ∈ xs, t.isComment = false →
      t.token?.isSome = true ∧ (t.kind = .fieldName ∨ t.kind = .integer) := by
  induction h with
  | @token _ kind cs t _ hc ht =>
    intro u hu hcomment
    rcases List.mem_append.mp hu with hu | hu
    · obtain ⟨c, -, rfl⟩ := List.mem_map.mp hu
      simp only [Tree.isComment, commentLeaf, Tree.kind] at hcomment
      split at hcomment <;> simp [Kind.isComment] at hcomment
    · rw [List.mem_singleton.mp hu]
      exact ⟨rfl, hf t ht⟩
  | left _ ih => exact ih hf.1
  | right _ ih => exact ih hf.2
  | _ => exact absurd hf (by simp [Form.IsField])

/-- All trees that a lawful grammar reads are lawful. -/
theorem Reads.lawful (hg : ∀ name, (grammar name).Lawful) {form : Form ν} {ts rest : List Token}
    {xs : List Tree} (h : Reads grammar form ts xs rest) (hf : form.Lawful) :
    ∀ u ∈ preorderAll xs, u.Lawful := by
  induction h with
  | empty => simp [preorderAll]
  | @token accepts kind cs t _ hc ht =>
    intro u hu
    rcases mem_preorderAll_leaves kind [t] hu with ⟨c, -, rfl⟩ | ⟨c, hmem, rfl⟩
    · exact Tree.lawful_commentLeaf c
    · rw [Form.Lawful] at hf
      rw [List.mem_singleton.mp hmem]
      exact Tree.lawful_leaf (hf t ht)
  | operator hc =>
    intro u hu
    rcases mem_preorderAll_leaves (fun _ => .mark) _ hu with ⟨c, -, rfl⟩ | ⟨c, -, rfl⟩
    · exact Tree.lawful_commentLeaf c
    · exact Tree.lawful_leaf fun tk htk => by simp [Kind.token?] at htk
  | seq _ _ ihf ihs =>
    rw [Form.Lawful] at hf
    exact Tree.forall_mem_append (ihf hf.1) (ihs hf.2)
  | left _ ih => rw [Form.Lawful] at hf; exact ih hf.1
  | right _ ih => rw [Form.Lawful] at hf; exact ih hf.2
  | stop => simp [preorderAll]
  | more _ _ ihi ihm => exact Tree.forall_mem_append (ihi (by rwa [Form.Lawful] at hf)) (ihm hf)
  | absent => simp [preorderAll]
  | role h ih =>
    rw [Form.Lawful] at hf
    exact Tree.lawful_label (ih hf.2) fun hr => h.field (hf.1 hr)
  | node _ ih =>
    rw [Form.Lawful] at hf
    exact Tree.forall_mem_wrap (ih hf) fun _ _ _ _ _ _ => Tree.lawful_node _ _ _
  | base _ ih => rw [Form.Lawful] at hf; exact ih hf.1
  | link _ hmem _ ihb ihf =>
    have hlinks := hf
    rw [Form.Lawful] at hlinks
    obtain ⟨hrole, hform⟩ := hlinks.2.of_mem hmem
    exact Tree.forall_mem_wrap
      (Tree.forall_mem_append (Tree.lawful_label (ihb hf) fun hr => absurd hr hrole) (ihf hform))
      fun _ _ _ _ _ _ => Tree.lawful_node _ _ _
  | rule _ ih => exact ih (hg _)

end Attest.Syntax
