import Blocklist.Proofs.Lines
import Mathlib.Data.List.Forall2

/-! A list is read line by line: what a line gives depends on the line, its number and the name of the list, and on no
other line. So a text under another one gives the same rules, further down, and carriage returns before the line feeds
change nothing. -/

namespace Blocklist

def Rule.moved (n : Nat) (r : Rule) : Rule := { r with line := r.line + n }

def Text.withReturns (t : Text) : Text := t.flatMap fun c => if c = '\n' then ['\r', '\n'] else [c]

namespace Line

variable [Regex.Library]

def placedRule? (source : Text) (n : Nat) (l : Line) : Option Rule := (l.rule? source n).toOption.join

theorem rule?_of_placedRule? {source : Text} {n : Nat} {l : Line} {r : Rule} (h : l.placedRule? source n = some r) :
    l.rule? source n = .ok (some r) := by
  unfold placedRule? at h
  cases hx : l.rule? source n with
  | error e =>
    rw [hx] at h
    cases h
  | ok x =>
    rw [hx] at h
    exact congrArg Except.ok h

theorem placedRule?_add (source : Text) (n k : Nat) (l : Line) :
    l.placedRule? source (n + k) = (l.placedRule? source n).map (Rule.moved k) := by
  cases l with
  | silent => rfl
  | element mark pages selector =>
    simp only [placedRule?, rule?]
    cases Target.read mark pages selector <;> rfl
  | network l =>
    simp only [placedRule?, rule?]
    cases l.read <;> rfl

def rulesFrom (source : Text) (n : Nat) (ls : List Line) : List Rule :=
  (ls.zipIdx n).filterMap fun x => x.1.placedRule? source x.2

theorem rulesFrom_cons (source : Text) (n : Nat) (l : Line) (ls : List Line) :
    rulesFrom source n (l :: ls) = (l.placedRule? source n).toList ++ rulesFrom source (n + 1) ls := by
  rw [rulesFrom, List.zipIdx_cons, List.filterMap_cons]
  cases l.placedRule? source n <;> rfl

theorem rulesFrom_append (source : Text) (n : Nat) (ls ks : List Line) :
    rulesFrom source n (ls ++ ks) = rulesFrom source n ls ++ rulesFrom source (n + ls.length) ks := by
  rw [rulesFrom, List.zipIdx_append, List.filterMap_append]
  rfl

theorem rulesFrom_add (source : Text) (n k : Nat) (ls : List Line) :
    rulesFrom source (n + k) ls = (rulesFrom source n ls).map (Rule.moved k) := by
  induction ls generalizing n with
  | nil => rfl
  | cons l ls ih =>
    rw [rulesFrom_cons, rulesFrom_cons, List.map_append, ← ih, placedRule?_add, Nat.add_right_comm]
    cases l.placedRule? source n <;> rfl

theorem rulesFrom_silent (source : Text) (n : Nat) {ls : List Line} (h : ∀ l ∈ ls, l = silent) :
    rulesFrom source n ls = [] := by
  rw [rulesFrom, List.filterMap_eq_nil_iff]
  intro x hx
  rw [h x.1 (List.fst_mem_of_mem_zipIdx hx)]
  rfl

end Line

namespace FilterList

variable [Regex.Library]

theorem filterMap_rule?_readFrom (source : Text) (n : Nat) (ts : List Text) :
    (readFrom source n ts).filterMap LineReading.rule? = Line.rulesFrom source n (ts.map Line.ofText) := by
  induction ts generalizing n with
  | nil => rfl
  | cons t ts ih =>
    have ht : LineReading.rule? ⟨n, t, Rule.ofLine? source n t⟩ = (Line.ofText t).placedRule? source n := by
      rw [LineReading.rule?, Line.placedRule?, Rule.ofLine?]
      cases (Line.ofText t).rule? source n <;> rfl
    rw [readFrom, List.filterMap_cons, ht, ih, List.map_cons, Line.rulesFrom_cons]
    cases (Line.ofText t).placedRule? source n <;> rfl

theorem rules_read (l : FilterList) : l.read.rules = Line.rulesFrom l.name 1 (Line.ofTextLines l.text) := by
  obtain ⟨silent, hsilent, hlines⟩ := Text.map_ofText_linesOfPieces (Text.splitOn '\n' l.text)
  rw [Line.ofTextLines, hlines, Line.rulesFrom_append, Line.rulesFrom_silent _ _ hsilent, List.append_nil]
  exact filterMap_rule?_readFrom l.name 1 _

end FilterList

namespace Text

/-- Each piece is as before, or has a carriage return behind it. -/
theorem splitOn_withReturns (t : Text) :
    List.Forall₂ (fun p q => p = q ∨ p = q ++ ['\r']) (splitOn '\n' t.withReturns) (splitOn '\n' t) := by
  unfold splitOn
  induction t with
  | nil => exact .cons (Or.inl rfl) .nil
  | cons c t ih =>
    by_cases hc : c = '\n'
    · subst hc
      simpa [withReturns, splitWhen] using ih
    · have hreturns : withReturns (c :: t) = c :: withReturns t := by simp [withReturns, hc]
      have hcons {u x : Text} {xs : List Text} (hu : splitWhen (· == '\n') u = x :: xs) :
          splitWhen (· == '\n') (c :: u) = (c :: x) :: xs :=
        splitWhen_append (a := [c]) (by simpa using hc) hu
      obtain ⟨w, ws, hw⟩ := List.exists_cons_of_ne_nil (splitWhen_ne_nil (· == '\n') (withReturns t))
      obtain ⟨v, vs, hv⟩ := List.exists_cons_of_ne_nil (splitWhen_ne_nil (· == '\n') t)
      rw [hw, hv, List.forall₂_cons] at ih
      rw [hreturns, hcons hw, hcons hv]
      refine .cons ?_ ih.2
      rcases ih.1 with rfl | rfl
      · exact Or.inl rfl
      · exact Or.inr rfl

theorem ofTextLines_withReturns (t : Text) : Line.ofTextLines t.withReturns = Line.ofTextLines t := by
  have hpieces (p q : Text) (h : p = q ∨ p = q ++ ['\r']) : Line.ofText p = Line.ofText q := by
    rcases h with rfl | rfl
    · rfl
    · exact Line.ofText_congr (trim_append_singleton (by decide) q)
  rw [Line.ofTextLines, Line.ofTextLines, ← List.forall₂_eq_eq_eq, List.forall₂_map_left_iff,
    List.forall₂_map_right_iff]
  exact (splitOn_withReturns t).imp hpieces

theorem ofTextLines_append (a b : Text) :
    Line.ofTextLines (a ++ '\n' :: b) = Line.ofTextLines a ++ Line.ofTextLines b := by
  rw [Line.ofTextLines, splitOn, splitWhen_append_cons rfl, List.map_append]
  rfl

theorem length_ofTextLines (t : Text) : (Line.ofTextLines t).length = t.count '\n' + 1 := by
  rw [Line.ofTextLines, List.length_map, length_splitOn]

end Text

namespace FilterList

variable [Regex.Library] (source : Text)

theorem rules_read_append (a b : Text) :
    (read ⟨source, a ++ '\n' :: b⟩).rules =
      (read ⟨source, a⟩).rules ++ (read ⟨source, b⟩).rules.map (Rule.moved (1 + a.count '\n')) := by
  rw [rules_read, rules_read, rules_read, Text.ofTextLines_append, Line.rulesFrom_append, Text.length_ofTextLines,
    Line.rulesFrom_add, Nat.add_comm 1]

theorem invalid_read_append (a b : Text) :
    (read ⟨source, a ++ '\n' :: b⟩).invalid = (read ⟨source, a⟩).invalid + (read ⟨source, b⟩).invalid := by
  rw [invalid_read, invalid_read, invalid_read, Text.ofTextLines_append, List.countP_append]

theorem rules_read_withReturns (t : Text) :
    (read ⟨source, t.withReturns⟩).rules = (read ⟨source, t⟩).rules := by
  rw [rules_read, rules_read, Text.ofTextLines_withReturns]

theorem invalid_read_withReturns (t : Text) :
    (read ⟨source, t.withReturns⟩).invalid = (read ⟨source, t⟩).invalid := by
  rw [invalid_read, invalid_read, Text.ofTextLines_withReturns]

/-- What the lines give, each by itself. -/
theorem rules_read_eq_filterMap (t : Text) :
    (read ⟨source, t⟩).rules =
      ((Text.splitOn '\n' t).zipIdx 1).filterMap fun x => (Rule.ofLine? source x.2 x.1).toOption.join := by
  rw [rules_read, Line.rulesFrom, Line.ofTextLines, List.zipIdx_map, List.filterMap_map]
  rfl

theorem invalid_read_eq_countP (t : Text) :
    (read ⟨source, t⟩).invalid =
      ((Text.splitOn '\n' t).zipIdx 1).countP fun x => !(Rule.ofLine? source x.2 x.1).isOk := by
  have hfst : Text.splitOn '\n' t = ((Text.splitOn '\n' t).zipIdx 1).map Prod.fst := (List.zipIdx_map_fst 1 _).symm
  rw [invalid_read, Line.ofTextLines, hfst, List.countP_map, List.countP_map, ← hfst]
  apply List.countP_congr
  intro x _
  rw [Function.comp_apply, Function.comp_apply, ← LineReading.isInvalid_ofLine? source x.1 x.2]
  rfl

/-- One text below another gives the rules of the first, then those of the second, moved down by the lines before them,
and as many invalid lines as both together. Carriage returns before the line feeds change nothing. What a line gives
depends on no other line. -/
theorem read_line_by_line (a b t : Text) :
    ((read ⟨source, a ++ '\n' :: b⟩).rules =
        (read ⟨source, a⟩).rules ++ (read ⟨source, b⟩).rules.map (Rule.moved (1 + a.count '\n')) ∧
      (read ⟨source, a ++ '\n' :: b⟩).parsed = (read ⟨source, a⟩).parsed + (read ⟨source, b⟩).parsed ∧
      (read ⟨source, a ++ '\n' :: b⟩).invalid = (read ⟨source, a⟩).invalid + (read ⟨source, b⟩).invalid) ∧
    ((read ⟨source, t.withReturns⟩).rules = (read ⟨source, t⟩).rules ∧
      (read ⟨source, t.withReturns⟩).parsed = (read ⟨source, t⟩).parsed ∧
      (read ⟨source, t.withReturns⟩).invalid = (read ⟨source, t⟩).invalid) ∧
    (read ⟨source, t⟩).rules =
      ((Text.splitOn '\n' t).zipIdx 1).filterMap (fun x => (Rule.ofLine? source x.2 x.1).toOption.join) ∧
    (read ⟨source, t⟩).invalid =
      ((Text.splitOn '\n' t).zipIdx 1).countP fun x => !(Rule.ofLine? source x.2 x.1).isOk := by
  have hrules := rules_read_append source a b
  have hreturns := rules_read_withReturns source t
  refine ⟨⟨hrules, ?_, invalid_read_append source a b⟩, ⟨hreturns, ?_, invalid_read_withReturns source t⟩,
    rules_read_eq_filterMap source t, invalid_read_eq_countP source t⟩
  · rw [ListReading.parsed, hrules, List.length_append, List.length_map]
    rfl
  · rw [ListReading.parsed, hreturns]
    rfl

end FilterList

end Blocklist
