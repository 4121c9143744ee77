/-
  Calls behind an expression. Main statements: whatever expression has been read, a point, a word
  and arguments behind it make it a call of that word (`MethodAt.extend_eq`), which is found as such
  (`ofTree?_memberCall`); and behind a call of the entry point the chain does not go on
  (`chain_of_memberCall`). Only `await` is no method, so reserved words are called as well.
-/
import Attest.Proofs.Call.Link
import Attest.Proofs.Syntax.Grammar

namespace Attest.Call

open Syntax
open Grammar (F seqs alts mark leaf fieldOf fieldName keyword op r postfixLinks attrs)

/-! ## Reading without comments -/

theorem isMark_iff {t : Token} {c : String} : t.isMark c = true ↔ t.kind = .mark ∧ t.text = c := by
  rw [Token.isMark, Bool.and_eq_true, beq_iff_eq, beq_iff_eq]

section

variable {f g : F} {ts rest : List Token} {xs : List Tree} {fuel : Nat}

theorem readToken_cons {accepts : Token → Bool} {kind : Token → Kind} {t : Token}
    (ht : t.isComment = false) (ts : List Token) :
    readToken accepts kind (t :: ts) =
      if accepts t then some ([.leaf .plain (kind t) t], ts) else none := by
  simp [readToken, significant, comments, ht]

theorem readToken_none {accepts : Token → Bool} {kind : Token → Kind} {t : Token}
    (ht : t.isComment = false) (h : accepts t = false) :
    readToken accepts kind (t :: ts) = none := by
  rw [readToken_cons ht, if_neg (by simp [h])]

theorem read_seq_none (h : read rust fuel f ts = none) :
    read rust (fuel + 1) (.seq f g) ts = none := by
  rw [Syntax.read, h]

theorem read_seq_some (h : read rust fuel f ts = some (xs, rest)) :
    read rust (fuel + 1) (.seq f g) ts =
      (read rust fuel g rest).map fun r => (xs ++ r.1, r.2) := by
  rw [Syntax.read, h]
  dsimp only
  cases read rust fuel g rest with
  | none => rfl
  | some r => rfl

theorem read_alt_some {r : List Tree × List Token} (h : read rust fuel f ts = some r) :
    read rust (fuel + 1) (.alt f g) ts = some r := by
  rw [Syntax.read, h]

/-- What a link adds to an expression whose last tree is of that kind. -/
def added (fuel : Nat) (last : Kind) (ts : List Token) (link : (Kind → Bool) × Kind × Role × F) :
    Option (Kind × Role × List Tree × List Token) :=
  if link.1 last then
    (read rust fuel link.2.2.2 ts).map fun r => (link.2.1, link.2.2.1, r.1, r.2)
  else none

/-- The first link that adds something is taken. -/
theorem extend_of_added {links : List ((Kind → Bool) × Kind × Role × F)} {kind : Kind} {role : Role}
    {ys : List Tree}
    (h : links.findSome? (added fuel (lastKind xs) ts) = some (kind, role, ys, rest)) :
    extend rust (fuel + 1) links xs ts =
      extend rust fuel links (Tree.wrap (fun _ => kind) (Tree.label role xs ++ ys)) rest := by
  unfold added at h
  rw [extend, h]

end

/-! ## Members and calls -/

/-- The member of an expression, behind a point. -/
def memberTree (base : Tree) (point name : Token) : Tree :=
  .node .plain .member ⟨base.span.start, name.stop⟩
    [base.withRole .value, .leaf .plain .mark point, .leaf .field .fieldName name]

/-- An expression called with arguments. -/
def callTree (callee arguments : Tree) : Tree :=
  .node .plain .call ⟨callee.span.start, arguments.span.stop⟩
    [callee.withRole .function, arguments.withRole .arguments]

/-- A call of the method `name` of an expression. -/
def memberCall (base : Tree) (point name : Token) (arguments : Tree) : Tree :=
  callTree (memberTree base point name) arguments

variable {fuel : Nat} {point name : Token} {base arguments : Tree} {ts rest : List Token}

theorem readOperator_point (hpoint : point.isMark "." = true) (hname : name.kind = .word)
    (ts : List Token) :
    readOperator "." (point :: name :: ts) = some ([.leaf .plain .mark point], name :: ts) := by
  obtain ⟨hkind, htext⟩ := isMark_iff.1 hpoint
  have hcomment : point.isComment = false := by simp [Token.isComment, hkind]
  have hadjoining : adjoining 3 (point :: name :: ts) = ['.'] := by
    rw [adjoining, hkind, if_pos (by decide), htext]
    simp [adjoining, hname]
  have hoperator : operatorAt (point :: name :: ts) = "." := by
    rw [operatorAt, hadjoining]
    decide +kernel
  have hbody : significant (point :: name :: ts) = point :: name :: ts := by
    simp [significant, hcomment]
  have hcomments : comments (point :: name :: ts) = [] := by simp [comments, hcomment]
  rw [readOperator, hbody, hoperator, hcomments]
  rfl

/-- A node around an expression and what has been read behind it. -/
theorem wrap_label (k : Kind) (role : Role) {first last : Tree} {behind : List Tree}
    (hfirst : first.isComment = false) (hlast : behind.getLast? = some last) :
    Tree.wrap (fun _ => k) (Tree.label role [first] ++ behind) =
      [.node .plain k ⟨first.span.start, last.span.stop⟩ (first.withRole role :: behind)] := by
  have hlabel : Tree.label role [first] = [first.withRole role] := by
    rw [Tree.label, List.map_cons, List.map_nil, if_neg (by simp [hfirst])]
  have hkept : (first.withRole role).isComment = false := by
    rw [Tree.isComment, Tree.kind_withRole]
    exact hfirst
  have hbody : (first.withRole role :: behind).dropWhile Tree.isComment =
      first.withRole role :: behind := List.dropWhile_cons_of_neg (by simp [hkept])
  have hfront : (first.withRole role :: behind).takeWhile Tree.isComment = [] :=
    List.takeWhile_cons_of_neg (by simp [hkept])
  have hend : (first.withRole role :: behind).getLast? = some last := by
    rw [List.getLast?_cons, hlast]
    rfl
  rw [hlabel, List.singleton_append, Tree.wrap, hbody, hfront, hend, List.head?_cons]
  dsimp only
  rw [Tree.span_withRole, List.nil_append]

theorem extend_member (fuel : Nat) (p : Position) (hbase : base.isComment = false)
    (hpoint : point.isMark "." = true) (hname : name.kind = .word) (hawait : name.text ≠ "await")
    (ts : List Token) :
    extend rust (fuel + 8) (postfixLinks p) [base] (point :: name :: ts) =
      extend rust (fuel + 7) (postfixLinks p) [memberTree base point name] ts := by
  obtain ⟨hkind, htext⟩ := isMark_iff.1 hpoint
  have hpointed : point.isComment = false := by simp [Token.isComment, hkind]
  have hnamed : name.isComment = false := by simp [Token.isComment, hname]
  have hmark (c : String) (hc : c ≠ ".") : point.isMark c = false := by
    simp [Token.isMark, htext, Ne.symm hc]
  have hop : Syntax.read rust (fuel + 6) (op ".") (point :: name :: ts) =
      some ([.leaf .plain .mark point], name :: ts) := readOperator_point hpoint hname ts
  -- No other link reads a point with a word behind it.
  have hcall : Syntax.read rust (fuel + 7) (.role .arguments (r .arguments))
      (point :: name :: ts) = none := by
    have hparen : Syntax.read rust (fuel + 4)
        (seqs [mark "(", Grammar.list (seqs [attrs, r (.expr .inside)]), mark ")"])
        (point :: name :: ts) = none :=
      read_seq_none (readToken_none hpointed (hmark _ (by decide)))
    show Option.map _ (Option.map _ (Syntax.read rust (fuel + 4) _ _)) = none
    rw [hparen]
    rfl
  have hindex : Syntax.read rust (fuel + 7) (seqs [mark "[", r (.expr .inside), mark "]"])
      (point :: name :: ts) = none :=
    read_seq_none (readToken_none hpointed (hmark _ (by decide)))
  have htry : Syntax.read rust (fuel + 7) (mark "?") (point :: name :: ts) = none :=
    readToken_none hpointed (hmark _ (by decide))
  have hnoAwait : Syntax.read rust (fuel + 7) (seqs [op ".", keyword "await"])
      (point :: name :: ts) = none := by
    have hword : Syntax.read rust (fuel + 6) (seqs [keyword "await"]) (name :: ts) = none :=
      read_seq_none (readToken_none hnamed (by simp [Token.isWord, hawait]))
    rw [seqs, List.foldr, read_seq_some hop]
    exact congrArg (Option.map _) hword
  have hmember : Syntax.read rust (fuel + 7) (seqs [op ".", .role .field fieldOf])
      (point :: name :: ts) =
        some ([.leaf .plain .mark point, .leaf .field .fieldName name], ts) := by
    have hleaf : Syntax.read rust (fuel + 4) fieldOf (name :: ts) =
        some ([.leaf .plain .fieldName name], ts) := by
      refine read_alt_some ((readToken_cons hnamed ts).trans ?_)
      rw [if_pos (by simp [hname, hawait])]
    have hrole : Syntax.read rust (fuel + 5) (.role .field fieldOf) (name :: ts) =
        some ([.leaf .field .fieldName name], ts) := congrArg (Option.map _) hleaf
    have hfield : Syntax.read rust (fuel + 6) (seqs [.role .field fieldOf]) (name :: ts) =
        some ([.leaf .field .fieldName name], ts) := by
      rw [seqs, List.foldr, read_seq_some hrole]
      rfl
    rw [seqs, List.foldr, read_seq_some hop]
    exact congrArg (Option.map _) hfield
  have hadded : (postfixLinks p).findSome?
      (added (fuel + 7) (lastKind [base]) (point :: name :: ts)) =
        some (.member, .value, [.leaf .plain .mark point, .leaf .field .fieldName name], ts) := by
    simp only [postfixLinks, Grammar.linkAt, Grammar.link, List.findSome?_cons, added, hcall, hindex,
      htry, hnoAwait, hmember, Option.map_none, ite_self, if_true, Option.map_some]
  have hlast : [Syntax.Tree.leaf .plain .mark point, .leaf .field .fieldName name].getLast? =
      some (.leaf .field .fieldName name) := rfl
  rw [extend_of_added hadded, wrap_label .member .value hbase hlast]
  rfl

theorem extend_call {callee : Tree} (fuel : Nat) (p : Position)
    (hcallee : callee.isComment = false) (hblock : Grammar.isBlockLike callee.kind = false)
    (harguments : arguments.kind = .arguments)
    (hread : Syntax.read rust fuel (.rule .arguments) ts = some ([arguments], rest)) :
    extend rust (fuel + 2) (postfixLinks p) [callee] ts =
      extend rust (fuel + 1) (postfixLinks p) [callTree callee arguments] rest := by
  have hplain : arguments.isComment = false := by rw [Tree.isComment, harguments]; rfl
  have hrole : Syntax.read rust (fuel + 1) (.role .arguments (r .arguments)) ts =
      some ([arguments.withRole .arguments], rest) := by
    show Option.map _ (Syntax.read rust fuel (.rule .arguments) ts) = _
    rw [hread]
    simp [Tree.label, hplain]
  have hadded : (postfixLinks p).findSome? (added (fuel + 1) (lastKind [callee]) ts) =
      some (.call, .function, [arguments.withRole .arguments], rest) := by
    have hlast : lastKind [callee] = callee.kind := rfl
    simp only [postfixLinks, Grammar.linkAt, List.findSome?_cons, added, hlast, hblock,
      Bool.and_false, Bool.not_false, if_true, hrole, Option.map_some]
  have hend : [arguments.withRole .arguments].getLast? = some (arguments.withRole .arguments) := rfl
  rw [extend_of_added hadded, wrap_label .call .function hcallee hend, Tree.span_withRole]
  rfl

/-- The tokens begin with a point, a word and arguments. -/
structure MethodAt (fuel : Nat) (ts : List Token) (point name : Token) (arguments : Tree)
    (rest : List Token) : Prop where
  isPoint : point.isMark "." = true
  isWord : name.kind = .word
  reads : ∃ ts', ts = point :: name :: ts' ∧
    Syntax.read rust fuel (.rule .arguments) ts' = some ([arguments], rest)

theorem MethodAt.kind_arguments (h : MethodAt fuel ts point name arguments rest) :
    arguments.kind = .arguments := by
  obtain ⟨ts', -, hread⟩ := h.reads
  obtain ⟨last, hlast, hallows, -⟩ :=
    (reads_of_read hread).endsAs (fun _ => rust_endsAs) (e := .arguments) trivial
  obtain rfl := Option.some.inj hlast
  exact hallows

/-- Behind an expression they are read as a call of the word. -/
theorem MethodAt.extend_eq (h : MethodAt (fuel + 5) ts point name arguments rest) (p : Position)
    (hbase : base.isComment = false) (hawait : name.text ≠ "await") :
    extend rust (fuel + 8) (postfixLinks p) [base] ts =
      extend rust (fuel + 6) (postfixLinks p) [memberCall base point name arguments] rest := by
  obtain ⟨ts', rfl, hread⟩ := h.reads
  rw [extend_member fuel p hbase h.isPoint h.isWord hawait,
    extend_call (fuel + 5) p rfl rfl h.kind_arguments hread]
  rfl

/-- So are two calls in a row. -/
theorem MethodAt.extend_twice {mid : List Token} {point' name' : Token} {arguments' : Tree}
    (h : MethodAt (fuel + 7) ts point name arguments mid)
    (h' : MethodAt (fuel + 5) mid point' name' arguments' rest) (p : Position)
    (hbase : base.isComment = false) (hname : name.text ≠ "await") (hname' : name'.text ≠ "await") :
    extend rust (fuel + 10) (postfixLinks p) [base] ts =
      extend rust (fuel + 6) (postfixLinks p)
        [memberCall (memberCall base point name arguments) point' name' arguments'] rest := by
  have hfirst : extend rust (fuel + 10) (postfixLinks p) [base] ts =
      extend rust (fuel + 8) (postfixLinks p) [memberCall base point name arguments] mid :=
    h.extend_eq p hbase hname
  rw [hfirst, h'.extend_eq p rfl hname']

/-! ## Calls of a method -/

/-- What is found of such a call. -/
def memberCandidate (base : Tree) (point name : Token) (arguments : Tree) : Candidate :=
  ⟨memberCall base point name arguments, (memberTree base point name).withRole .function⟩

/-- The call is found by the name of its method. -/
theorem ofTree?_memberCall (base : Tree) (point name : Token) (arguments : Tree) :
    Candidate.ofTree? name.text (memberCall base point name arguments) =
      some (memberCandidate base point name arguments) := by
  have hmember : Candidate.memberOf? (memberCall base point name arguments) =
      some ((memberTree base point name).withRole .function) := rfl
  have hfield : Candidate.fieldText? ((memberTree base point name).withRole .function) =
      some name.text := by
    cases base <;> rfl
  rw [Candidate.ofTree?, hmember]
  exact if_pos hfield

theorem receiver?_memberCandidate (base : Tree) (point name : Token) (arguments : Tree) :
    (memberCandidate base point name arguments).receiver? = some (base.withRole .value) := by
  cases base <;> rfl

theorem names_withRole (role : Role) (t : Tree) : names (t.withRole role) = names t := by
  cases t <;> rfl

/-- Such a call is a link of the chain, with the name of its method. -/
theorem link_memberCall (base : Tree) (point name : Token)
    (harguments : arguments.kind = .arguments) :
    Link (base.withRole .value) (some name.text) (memberCall base point name arguments) := by
  have hpoint : ∀ g ∈ [Syntax.Tree.leaf .plain .mark point], g.IsGap := by
    intro g hg
    rw [List.mem_singleton.1 hg]
    exact .inl rfl
  have hmember : Link (base.withRole .value) (some name.text)
      ((memberTree base point name).withRole .function) := .field hpoint
  have hkind : (arguments.withRole .arguments).kind = .arguments := by
    rw [Tree.kind_withRole, harguments]
  have hnone : ∀ g ∈ ([] : List Tree), g.IsGap := fun _ hg => nomatch hg
  exact .call hmember hnone hkind

theorem names_memberCall (base : Tree) (point name : Token)
    (harguments : arguments.kind = .arguments) :
    names (memberCall base point name arguments) = names base ++ [name.text] := by
  rw [names_of_link (link_memberCall base point name harguments), names_withRole]
  rfl

/-- The entry point behind other names adds nothing to those that count. -/
theorem describedNames_entryPoint (e m : String) (ns : List String) :
    describedNames e m (ns ++ [e]) = describedNames e m ns := by
  by_cases h : ∃ n ∈ ns, isEntryPoint e n = true
  · exact describedNames_append h [e]
  · have hnone : ∀ n ∈ ns, isEntryPoint e n = false := fun n hn =>
      Bool.eq_false_iff.2 fun hentry => h ⟨n, hn, hentry⟩
    rw [describedNames_concat hnone, if_pos (Or.inr (Or.inl rfl))]

/-- A chain does not go on behind a call of the entry point: that of a check on the call tells the
names in front. -/
theorem chain_of_memberCall (base : Tree) (point entry point' method : Token) (args : Tree)
    (harguments : arguments.kind = .arguments) :
    (memberCandidate (memberCall base point entry arguments) point' method args).chain
        entry.text method.text =
      ".".intercalate (describedNames entry.text method.text (names base)) := by
  rw [chain_of_receiver? (receiver?_memberCandidate _ _ _ _), names_withRole,
    names_memberCall base point entry harguments, describedNames_entryPoint]

end Attest.Call
