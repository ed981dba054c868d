import Blocklist.FilterList
import Blocklist.Proofs.Reduction.Views
import Blocklist.Proofs.Text

/-! What the lines of a text give does not depend on how the text ends its lines, on where they stand, or on the list
they are read for. So texts that are put together line by line give what their parts give. -/

namespace Blocklist

namespace Text

theorem trim_dropReturn (t : Text) : (dropReturn t).trim = t.trim := by
  unfold dropReturn
  cases h : ['\r'].isSuffixOf? t with
  | none => rfl
  | some u =>
    rw [isSuffixOf?_eq_some.mp h, trim_append_singleton (by decide), Option.getD_some]

end Text

namespace Line

theorem ofText_congr {t u : Text} (h : t.trim = u.trim) : ofText t = ofText u := by
  simp only [ofText, h]

theorem ofText_of_trim_eq_nil {t : Text} (h : t.trim = []) : ofText t = .silent := by
  simp [ofText, h]

def ofTextLines (t : Text) : List Line := (Text.splitOn '\n' t).map ofText

variable [Regex.Library]

def unplacedRule? (l : Line) : Option Rule :=
  match l.rule? [] 0 with
  | .ok r => r
  | .error _ => none

theorem rule?_of_unplacedRule? {l : Line} {r : Rule} (h : l.unplacedRule? = some r) : l.rule? [] 0 = .ok (some r) := by
  unfold unplacedRule? at h
  split at h
  · rename_i x hx
    rw [hx, h]
  · cases h

def isInvalid (l : Line) : Bool := !(l.rule? [] 0).isOk

/-- The place of a line is only copied. -/
theorem map_unplaced_rule? (l : Line) (source : Text) (n : Nat) :
    (l.rule? source n).map (Option.map Rule.unplaced) = l.rule? [] 0 := by
  cases l with
  | silent => rfl
  | element mark pages selector =>
    simp only [rule?]
    cases Target.read mark pages selector <;> rfl
  | network l =>
    simp only [rule?]
    cases l.read <;> rfl

end Line

/-- The lines of a text are its pieces, but for the ends of the lines and a silent one at the end. -/
theorem Text.map_ofText_linesOfPieces (ps : List Text) :
    ∃ silent, (∀ l ∈ silent, l = Line.silent) ∧
      ps.map Line.ofText = (linesOfPieces ps).map Line.ofText ++ silent := by
  fun_induction linesOfPieces ps with
  | case1 => exact ⟨[], by simp, rfl⟩
  | case2 => exact ⟨[.silent], by simp, rfl⟩
  | case3 last h => exact ⟨[], by simp, by simp⟩
  | case4 t rest hne ih =>
    obtain ⟨silent, hs, he⟩ := ih
    refine ⟨silent, hs, ?_⟩
    rw [List.map_cons, List.map_cons, List.cons_append, he, Line.ofText_congr (trim_dropReturn t)]

namespace LineReading

variable [Regex.Library]

theorem map_unplaced_rule? (source line : Text) (n : Nat) :
    (rule? ⟨n, line, Rule.ofLine? source n line⟩).map Rule.unplaced = (Line.ofText line).unplacedRule? := by
  rw [Line.unplacedRule?, ← Line.map_unplaced_rule? _ source n, rule?, Rule.ofLine?]
  cases (Line.ofText line).rule? source n <;> rfl

theorem isInvalid_ofLine? (source line : Text) (n : Nat) :
    isInvalid ⟨n, line, Rule.ofLine? source n line⟩ = (Line.ofText line).isInvalid := by
  rw [Line.isInvalid, ← Line.map_unplaced_rule? _ source n, isInvalid, Rule.ofLine?]
  cases (Line.ofText line).rule? source n <;> rfl

end LineReading

namespace FilterList

variable [Regex.Library]

theorem map_unplaced_readFrom (source : Text) (n : Nat) (ts : List Text) :
    ((readFrom source n ts).filterMap LineReading.rule?).map Rule.unplaced =
      (ts.map Line.ofText).filterMap Line.unplacedRule? := by
  induction ts generalizing n with
  | nil => rfl
  | cons t ts ih =>
    have ht := LineReading.map_unplaced_rule? source t n
    rw [readFrom, List.filterMap_cons, List.map_cons, List.filterMap_cons, ← ht, ← ih (n + 1)]
    cases LineReading.rule? ⟨n, t, Rule.ofLine? source n t⟩ <;> rfl

theorem countP_isInvalid_readFrom (source : Text) (n : Nat) (ts : List Text) :
    (readFrom source n ts).countP LineReading.isInvalid = (ts.map Line.ofText).countP Line.isInvalid := by
  induction ts generalizing n with
  | nil => rfl
  | cons t ts ih =>
    rw [readFrom, List.countP_cons, List.map_cons, List.countP_cons, LineReading.isInvalid_ofLine?, ih]

/-- The rules of a list, without their places, line by line. -/
theorem map_unplaced_rules (l : FilterList) :
    l.read.rules.map Rule.unplaced = (Line.ofTextLines l.text).filterMap Line.unplacedRule? := by
  obtain ⟨silent, hsilent, hlines⟩ := Text.map_ofText_linesOfPieces (Text.splitOn '\n' l.text)
  have hnone : silent.filterMap Line.unplacedRule? = [] := by
    rw [List.filterMap_eq_nil_iff]
    intro x hx
    rw [hsilent x hx]
    rfl
  rw [Line.ofTextLines, hlines, List.filterMap_append, hnone, List.append_nil]
  exact map_unplaced_readFrom l.name 1 _

theorem invalid_read (l : FilterList) : l.read.invalid = (Line.ofTextLines l.text).countP Line.isInvalid := by
  obtain ⟨silent, hsilent, hlines⟩ := Text.map_ofText_linesOfPieces (Text.splitOn '\n' l.text)
  have hnone : silent.countP Line.isInvalid = 0 := by
    rw [List.countP_eq_zero]
    intro x hx
    rw [hsilent x hx]
    exact Bool.false_ne_true
  rw [Line.ofTextLines, hlines, List.countP_append, hnone, Nat.add_zero]
  exact countP_isInvalid_readFrom l.name 1 _

end FilterList

end Blocklist
