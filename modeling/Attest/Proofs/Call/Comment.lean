/-
  Comments. A block comment between two tokens does not change the answer, unless it is the first
  thing in parentheses around a literal: then the literal is not read. Main statement:
  `resolve_commented`.
-/
import Attest.Proofs.Call.Places
import Attest.Proofs.Syntax.Comment

namespace Attest.Call

open Syntax

/-- A comment on one line leaves rows and order as they are. -/
theorem commentBetween_keepsPlaces {text commented : String} (i : CommentBetween text commented) :
    KeepsPlaces i.Related where
  row t u h := by
    rcases h with ⟨-, rfl⟩ | ⟨-, rfl⟩
    · rfl
    · rfl
  order t u t' u' h h' := by
    have hlt {a b : Token} (ha : a ∈ i.before) (hb : b ∈ i.behind) : a.start < b.start := by
      have hstart := (i.before_placed ha).start_lt_stop
      have hstop := i.stop_le ha
      have hle := i.le_start b hb
      omega
    rcases h with ⟨ht, rfl⟩ | ⟨ht, rfl⟩ <;> rcases h' with ⟨ht', rfl⟩ | ⟨ht', rfl⟩
    · exact Iff.rfl
    · have horder := hlt ht ht'
      refine iff_of_true ?_ horder
      show u.start < t'.start + i.size
      omega
    · have horder := hlt ht' ht
      refine iff_of_false ?_ (by omega)
      show ¬ t.start + i.size < u'.start
      omega
    · show t.start + i.size < t'.start + i.size ↔ _
      omega

/-- A block comment between two tokens does not change the answer, if it does not hide an argument
that contradicts its value. -/
theorem resolve_commented {text commented : String} (i : CommentBetween text commented)
    {method : String} {line : Nat} {expected : Expected}
    (hidden : ∀ cd ∈ (candidates (.parse text) method line).zip
      (candidates (.parse commented) method line),
      ¬ HidesContradiction (· = i.comment) expected cd.1 cd.2) (entryPoint : String) :
    resolve (.parse commented) entryPoint method line expected =
      resolve (.parse text) entryPoint method line expected :=
  resolve_eq_of_aligned i.alignment (commentBetween_keepsPlaces i) i.aligned hidden
    (fun _ _ _ _ _ _ _ hlm => by
      rw [hlm.eq_of_text_eq fun t u h => ?_]
      rcases h with ⟨-, rfl⟩ | ⟨-, rfl⟩ <;> rfl) entryPoint

/-! ## A comment in parentheses -/

def upToNumber : String := "fn t() \x7b a.should().be(("

def behindNumber : String := ")); b.should().be(2); \x7d"

/-- Two calls on one line. -/
def twoCalls : String := upToNumber ++ "1" ++ behindNumber

/-- The same with a comment behind the first number, inside the parentheses. -/
def twoCallsBehind : String := upToNumber ++ "1" ++ "/* c */" ++ behindNumber

/-- The same with the comment in front of the first number. -/
def twoCallsHidden : String := upToNumber ++ "/* c */" ++ "1" ++ behindNumber

def commentBehind : CommentBetween twoCalls twoCallsBehind where
  front := upToNumber.toList ++ "1".toList
  back := behindNumber.toList
  comment := ⟨.blockComment, "/* c */", 25, 0⟩
  before := (scan twoCalls).take 15
  behind := (scan twoCalls).drop 15
  text_eq := by simp only [twoCalls, String.toList_append]
  commented_eq := by simp only [twoCallsBehind, String.toList_append, List.append_assoc]
  kind_eq := rfl
  start_eq := by decide +kernel
  oneLine := by decide
  scan_eq := (List.take_append_drop _ _).symm
  isPrefix := by decide +kernel
  before_ne_nil := by decide +kernel
  behind_ne_nil := by decide +kernel
  le_start := by decide +kernel
  apart := by decide +kernel

theorem not_hidden_of_token? {E : Token → Prop} {t : Tree} (h : t.token?.isSome = true) :
    ¬ Hidden E t := by
  intro hidden
  cases hidden <;> contradiction

/-- The number in front of the comment is read, and agrees. -/
theorem resolve_commented_behind :
    (∀ cd ∈ (candidates (.parse twoCalls) "be" 1).zip (candidates (.parse twoCallsBehind) "be" 1),
      ¬ HidesContradiction (· = commentBehind.comment) (.scalar (.int 1)) cd.1 cd.2) ∧
    resolve (.parse twoCallsBehind) "should" "be" 1 (.scalar (.int 1)) =
      resolve (.parse twoCalls) "should" "be" 1 (.scalar (.int 1)) ∧
    resolve (.parse twoCalls) "should" "be" 1 (.scalar (.int 1)) = .ok (some "a") := by
  have hchecks : ∀ cd ∈ (candidates (.parse twoCalls) "be" 1).zip
      (candidates (.parse twoCallsBehind) "be" 1),
      ∀ pq ∈ (cd.1.compared (.scalar (.int 1))).zip (cd.2.compared (.scalar (.int 1))),
        argumentAccepts pq.1.2 pq.1.1 = .ok true ∨ pq.2.2.token?.isSome = true := by
    decide +kernel
  have hidden : ∀ cd ∈ (candidates (.parse twoCalls) "be" 1).zip
      (candidates (.parse twoCallsBehind) "be" 1),
      ¬ HidesContradiction (· = commentBehind.comment) (.scalar (.int 1)) cd.1 cd.2 := by
    rintro cd hcd ⟨pq, hpq, hcontradicts, hhidden⟩
    rcases hchecks cd hcd pq hpq with haccepts | hleaf
    · exact hcontradicts haccepts
    · exact not_hidden_of_token? hleaf hhidden
  exact ⟨hidden, resolve_commented commentBehind hidden "should", by decide +kernel⟩

def commentHidden : CommentBetween twoCalls twoCallsHidden where
  front := upToNumber.toList
  back := "1".toList ++ behindNumber.toList
  comment := ⟨.blockComment, "/* c */", 24, 0⟩
  before := (scan twoCalls).take 14
  behind := (scan twoCalls).drop 14
  text_eq := by simp only [twoCalls, String.toList_append, List.append_assoc]
  commented_eq := by simp only [twoCallsHidden, String.toList_append, List.append_assoc]
  kind_eq := rfl
  start_eq := by decide +kernel
  oneLine := by decide
  scan_eq := (List.take_append_drop _ _).symm
  isPrefix := by decide +kernel
  before_ne_nil := by decide +kernel
  behind_ne_nil := by decide +kernel
  le_start := by decide +kernel
  apart := by decide +kernel

/-- A comment in front of the number hides that it is not the expected one. -/
theorem comment_changes_answer : ¬ ∀ (text commented : String) (_ : CommentBetween text commented)
    (entryPoint method : String) (line : Nat) (expected : Expected),
      resolve (.parse commented) entryPoint method line expected =
        resolve (.parse text) entryPoint method line expected := by
  intro h
  have hsame := h twoCalls twoCallsHidden commentHidden "should" "be" 1 (.scalar (.int 2))
  have hfound : resolve (.parse twoCalls) "should" "be" 1 (.scalar (.int 2)) = .ok (some "b") := by
    decide +kernel
  have hother : resolve (.parse twoCallsHidden) "should" "be" 1 (.scalar (.int 2)) =
      .ok (some "a") := by
    decide +kernel
  rw [hfound, hother] at hsame
  exact absurd hsame (by decide)

end Attest.Call
