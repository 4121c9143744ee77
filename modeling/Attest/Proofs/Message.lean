/-
  Messages of failed checks, read back. A message is a list of lines, and only the fixed words tell
  which of them is which: `Failure.ofMessage?` looks for them on the second line and, if they do
  not stand there, takes the first line for the context. Main statement (`message_determines`): of
  every failure without line breaks the message gives back all that it was made of, whatever the
  texts look like, values only as far as they have not been clipped; and a clipped value is either
  the whole text or a beginning of it with three dots, and is not clipped again.
-/
import Attest.Config.Basic
import Attest.Message
import Attest.Proofs.Text.Split

namespace Attest

variable {limit : Nat}

/-! ## Clipping -/

theorem clip_of_le {s : String} (h : s.length ≤ limit) : clip limit s = s := if_pos h

theorem clip_of_lt {s : String} (h : limit < s.length) :
    clip limit s = String.ofList (s.toList.take (limit - 3)) ++ "..." :=
  if_neg (Nat.not_le.2 h)

theorem length_clip_le (hlimit : 3 ≤ limit) (s : String) : (clip limit s).length ≤ limit := by
  by_cases h : s.length ≤ limit
  · rwa [clip_of_le h]
  · have hdots : "...".length = 3 := by decide
    have hkept : (s.toList.take (limit - 3)).length ≤ limit - 3 := List.length_take_le _ _
    rw [clip_of_lt (Nat.not_le.1 h), String.length_append, String.length_ofList, hdots]
    omega

/-- What has been clipped is short enough. -/
theorem clip_clip (hlimit : 3 ≤ limit) (s : String) : clip limit (clip limit s) = clip limit s :=
  clip_of_le (length_clip_le hlimit s)

/-- Clipping adds nothing but dots. -/
theorem lineFeed_not_mem_clip {s : String} (h : '\n' ∉ s.toList) :
    '\n' ∉ (clip limit s).toList := by
  by_cases hlength : s.length ≤ limit
  · rwa [clip_of_le hlength]
  · have hdots : '\n' ∉ "...".toList := by decide
    rw [clip_of_lt (Nat.not_le.1 hlength), String.toList_append, String.toList_ofList,
      List.mem_append, not_or]
    exact ⟨fun hmem => h (List.mem_of_mem_take hmem), hdots⟩

/-! ## Parts that are shown -/

/-- An absent part and an empty one are not told apart, all others are. -/
theorem shown_eq_iff {a b : Option String} : shown a = shown b ↔ a.getD "" = b.getD "" := by
  have hshown (part : Option String) :
      shown part = if part.getD "" = "" then none else some (part.getD "") := by
    cases part with
    | none => rfl
    | some s => by_cases h : s = "" <;> simp [shown, Option.filter, h]
  rw [hshown, hshown]
  constructor
  · intro h
    split at h
    · next ha =>
      split at h
      · next hb => rw [ha, hb]
      · contradiction
    · split at h
      · contradiction
      · exact Option.some.inj h
  · intro h
    rw [h]

namespace Failure

/-- What a message tells of a failure: the parts that are shown, and the values clipped. -/
def told (limit : Nat) (f : Failure) : Failure :=
  ⟨shown f.context, clip limit f.actual, clip limit f.expected, shown f.reason⟩

/-- No part has a line break. -/
structure OneLined (f : Failure) : Prop where
  context : ∀ s ∈ f.context, '\n' ∉ s.toList
  actual : '\n' ∉ f.actual.toList
  expected : '\n' ∉ f.expected.toList
  reason : ∀ s ∈ f.reason, '\n' ∉ s.toList

/-! ## Reading back -/

/-- What stands behind `front` in a text that begins with it. -/
def behind? (front s : String) : Option String :=
  if front.toList.isPrefixOf s.toList then
    some (String.ofList (s.toList.drop front.toList.length))
  else none

/-- A failure from the lines behind the context: the actual value, the fixed words, the expected
value and perhaps a reason. -/
def ofBody? (context : Option String) : List String → Option Failure
  | actual :: words :: expected :: rest =>
    if words = "but was expected" then
      match behind? "is " actual, rest with
      | some actual, [] => some ⟨context, actual, expected, none⟩
      | some actual, [reason] =>
        (behind? "because " reason).map fun reason => ⟨context, actual, expected, some reason⟩
      | _, _ => none
    else none
  | _ => none

/-- The first line is the context where the fixed words do not stand on the second. -/
def ofLines? : List String → Option Failure
  | [] => none
  | line :: lines => (ofBody? none (line :: lines)).or (ofBody? (some line) lines)

def ofMessage? (message : String) : Option Failure := ofLines? (Text.splitString '\n' message)

theorem behind?_append (front s : String) : behind? front (front ++ s) = some s := by
  rw [behind?, String.toList_append, if_pos (List.isPrefixOf_iff_prefix.2 (List.prefix_append _ _)),
    List.drop_left, String.ofList_toList]

theorem ofBody?_body (context : Option String) (actual expected : String)
    (reason : Option String) :
    ofBody? context (["is " ++ actual, "but was expected", expected] ++
        (reason.map ("because " ++ ·)).toList) =
      some ⟨context, actual, expected, reason⟩ := by
  cases reason with
  | none => simp [ofBody?, behind?_append]
  | some reason => simp [ofBody?, behind?_append]

/-- A line that gives the actual value is not taken for the fixed words. -/
theorem ofBody?_of_context (context : Option String) (line actual : String)
    (lines : List String) : ofBody? context (line :: ("is " ++ actual) :: lines) = none := by
  have hne : "is " ++ actual ≠ "but was expected" := by
    intro h
    have hfirst := congrArg (fun s : String => s.toList.head?) h
    simp at hfirst
  cases lines with
  | nil => rfl
  | cons expected rest => simp only [ofBody?, hne, if_false]

theorem ofLines?_lines (limit : Nat) (f : Failure) :
    ofLines? (f.lines limit) = some (f.told limit) := by
  have hbody (context : Option String) := ofBody?_body context (clip limit f.actual)
    (clip limit f.expected) (shown f.reason)
  rw [lines, told, List.append_assoc]
  cases shown f.context with
  | none =>
    rw [Option.toList_none, List.nil_append, List.cons_append, ofLines?, ← List.cons_append,
      hbody none]
    rfl
  | some name =>
    rw [Option.toList_some, List.singleton_append, ofLines?, List.cons_append, List.cons_append,
      ofBody?_of_context, ← List.cons_append, ← List.cons_append, hbody (some name)]
    rfl

theorem mem_of_mem_shown {part : Option String} {s : String} (h : s ∈ shown part) : s ∈ part :=
  (Option.filter_eq_some_iff.1 h).1

/-- Each line of the message is one line. -/
theorem OneLined.lines {f : Failure} (h : f.OneLined) (limit : Nat) :
    ∀ line ∈ f.lines limit, '\n' ∉ line.toList := by
  have hfront {front s : String} (hf : '\n' ∉ front.toList) (hs : '\n' ∉ s.toList) :
      '\n' ∉ (front ++ s).toList := by
    rw [String.toList_append, List.mem_append, not_or]
    exact ⟨hf, hs⟩
  intro line hline
  simp only [Failure.lines, List.mem_append, Option.mem_toList, List.mem_cons, List.not_mem_nil,
    or_false, Option.map_eq_some_iff] at hline
  rcases hline with (hname | rfl | rfl | rfl) | ⟨reason, hreason, rfl⟩
  · exact h.context line (mem_of_mem_shown hname)
  · exact hfront (by decide) (lineFeed_not_mem_clip h.actual)
  · decide
  · exact lineFeed_not_mem_clip h.expected
  · exact hfront (by decide) (h.reason reason (mem_of_mem_shown hreason))

/-- A message is read back as what it tells. -/
theorem ofMessage?_standardFormatter {f : Failure} (h : f.OneLined) (limit : Nat) :
    ofMessage? (standardFormatter limit f) = some (f.told limit) := by
  have hne : f.lines limit ≠ [] := by simp [Failure.lines]
  rw [ofMessage?, standardFormatter,
    Text.splitString_intercalate (by decide : "\n".toList = ['\n']) hne (h.lines limit),
    ofLines?_lines]

/-- What a message tells is enough to write it. -/
theorem standardFormatter_told (hlimit : 3 ≤ limit) (f : Failure) :
    standardFormatter limit (f.told limit) = standardFormatter limit f := by
  have hshown (part : Option String) : shown (shown part) = shown part := by simp [shown]
  rw [standardFormatter, standardFormatter, Failure.lines, Failure.lines, told, hshown, hshown,
    clip_clip hlimit, clip_clip hlimit]

/-- The same is told where the texts agree, those of absent parts being empty. -/
theorem told_eq_iff {f g : Failure} : f.told limit = g.told limit ↔
    f.context.getD "" = g.context.getD "" ∧ clip limit f.actual = clip limit g.actual ∧
      clip limit f.expected = clip limit g.expected ∧ f.reason.getD "" = g.reason.getD "" := by
  rw [told, told, Failure.mk.injEq, shown_eq_iff, shown_eq_iff]

end Failure

/-- The message tells the context, the clipped values and the reason, and nothing else. -/
theorem message_determines {c : Config} (hc : c.validate = .ok ()) :
    let limit := c.formatter.maxLength
    (∀ f : Failure, f.OneLined →
      Failure.ofMessage? (standardFormatter limit f) = some (f.told limit)) ∧
    (∀ f g : Failure, f.OneLined → g.OneLined →
      (standardFormatter limit f = standardFormatter limit g ↔
        f.context.getD "" = g.context.getD "" ∧ clip limit f.actual = clip limit g.actual ∧
          clip limit f.expected = clip limit g.expected ∧
          f.reason.getD "" = g.reason.getD "")) ∧
    ∀ s : String, (clip limit s).length ≤ limit ∧ (s.length ≤ limit → clip limit s = s) ∧
      (limit < s.length →
        clip limit s = String.ofList (s.toList.take (limit - 3)) ++ "...") ∧
      clip limit (clip limit s) = clip limit s := by
  intro limit
  have hlimit : 3 ≤ limit := Nat.le_trans (by decide) (Config.validate_iff.1 hc).2
  refine ⟨fun f hf => Failure.ofMessage?_standardFormatter hf limit, fun f g hf hg => ?_,
    fun s => ⟨length_clip_le hlimit s, clip_of_le, clip_of_lt, clip_clip hlimit s⟩⟩
  rw [← Failure.told_eq_iff]
  constructor
  · intro h
    have hread := Failure.ofMessage?_standardFormatter hf limit
    rw [h, Failure.ofMessage?_standardFormatter hg limit] at hread
    exact (Option.some.inj hread).symm
  · intro h
    rw [← Failure.standardFormatter_told hlimit f, h, Failure.standardFormatter_told hlimit g]

/-- A failure whose texts look like lines of a message. -/
def lookalike : Failure := ⟨some "is 5", "6", "because 7", none⟩

/-- A failure whose message has the same lines in another order. -/
def reordered : Failure := ⟨none, "5", "is 6", some "7"⟩

theorem message_determines_lookalike :
    ({} : Config).validate = .ok () ∧ lookalike.OneLined ∧ reordered.OneLined ∧
    Failure.ofMessage? (standardFormatter 200 lookalike) = some lookalike ∧
    standardFormatter 200 lookalike ≠ standardFormatter 200 reordered ∧
    clip 200 (clip 200 "6") = clip 200 "6" := by
  have hvalid : ({} : Config).validate = .ok () := rfl
  have hlookalike : lookalike.OneLined := ⟨by decide, by decide, by decide, by decide⟩
  have hreordered : reordered.OneLined := ⟨by decide, by decide, by decide, by decide⟩
  obtain ⟨hread, hiff, hclip⟩ := message_determines hvalid
  refine ⟨hvalid, hlookalike, hreordered, hread lookalike hlookalike, fun h => ?_,
    (hclip "6").2.2.2⟩
  exact absurd ((hiff lookalike reordered hlookalike hreordered).1 h).1 (by decide)

end Attest
