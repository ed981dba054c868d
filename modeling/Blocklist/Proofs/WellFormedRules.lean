import Blocklist.Proofs.LineByLine
import Blocklist.Proofs.Reading

/-! What holds of every rule of a list. The order in which the written form of a pattern is looked at leaves its mark on
the text that is kept: a text that got past the test for an anchor does not have it. The rules of a list stand in the
order of their lines, at most one to a line. -/

namespace Blocklist

namespace Pattern

/-- The text of a pattern says something, and has no dollar sign, which begins the options. -/
structure IsKept (t : Text) : Prop where
  nonempty : t ≠ []
  dollar : '$' ∉ t

def Unanchored (t : Text) : Prop := t.head? ≠ some '|' ∧ t.getLast? ≠ some '|'

def HasMetacharacter (t : Text) : Prop := ∃ c ∈ t, c ∈ metacharacters

def WellFormed [Regex.Library] : Pattern → Prop
  | .hostAnchor h => IsKept h ∧ ∀ c ∈ h, c.isUpper = false
  | .hostStart h => IsKept h ∧ (∀ c ∈ h, c.isUpper = false) ∧ h.getLast? ≠ some '^'
  | .startAnchor t => IsKept t ∧ t.head? ≠ some '|'
  | .endAnchor t => IsKept t
  | .wildcard t => IsKept t ∧ '*' ∈ t ∧ Unanchored t
  | .regex t => IsKept t ∧ '*' ∉ t ∧ Unanchored t ∧ HasMetacharacter t ∧ Regex.Library.compile t = .ok ()
  | .substring t => IsKept t ∧ ¬ HasMetacharacter t
  | .hostGroup _ => False

theorem IsKept.of_infix {t u : Text} (h : IsKept t) (hu : u <:+: t) (hne : u ≠ []) : IsKept u :=
  ⟨hne, fun hd => h.dollar (hu.subset hd)⟩

theorem IsKept.lower {t : Text} (h : IsKept t) : IsKept t.lower :=
  ⟨mt Text.lower_eq_nil.mp h.nonempty, fun hd => h.dollar (Text.mem_of_mem_lower (by decide) hd)⟩

theorem hasMetacharacter_iff {t : Text} : t.any metacharacters.contains = true ↔ HasMetacharacter t := by
  simp [HasMetacharacter]

variable [Regex.Library]

theorem compile_of_checkPattern {t : Text} (h : NetworkLine.checkPattern (.regex t) = .ok ()) :
    Regex.Library.compile t = .ok () := by
  rw [NetworkLine.checkPattern] at h
  cases hcompile : Regex.Library.compile t with
  | ok u => rfl
  | error reason =>
    rw [hcompile] at h
    cases h

/-- A text without anchors is kept as it is: with a star it is a wildcard pattern, with another metacharacter a regular
expression, and otherwise it stands for itself. -/
theorem wellFormed_ofUnanchored {t : Text} (ht : IsKept t) (hends : Unanchored t)
    (hcheck : NetworkLine.checkPattern (ofUnanchored t) = .ok ()) : (ofUnanchored t).WellFormed := by
  unfold ofUnanchored at hcheck ⊢
  split_ifs at hcheck ⊢ with hstar hregex
  · exact ⟨ht, by simpa using hstar, hends⟩
  · have hmeta : HasMetacharacter t := hasMetacharacter_iff.mp (Bool.and_eq_true_iff.mp hregex).1
    exact ⟨ht, by simpa using hstar, hends, hmeta, compile_of_checkPattern hcheck⟩
  · refine ⟨ht, fun hmeta => hregex ?_⟩
    rw [looksLikeRegex, hasMetacharacter_iff.mpr hmeta]
    simpa using hstar

theorem wellFormed_ofText {t : Text} (ht : IsKept t) (hcheck : NetworkLine.checkPattern (ofText t) = .ok ()) :
    (ofText t).WellFormed := by
  unfold ofText at hcheck ⊢
  cases hbars : ['|', '|'].isPrefixOf? t with
  | some rest =>
    have hrest : rest <:+: t := isPrefixOf?_eq_some.mp hbars ▸ (List.suffix_append _ rest).isInfix
    cases hcaret : ['^'].isSuffixOf? rest with
    | some host =>
      simp only [hbars, hcaret] at hcheck ⊢
      have hhost : host <:+: t :=
        (isSuffixOf?_eq_some.mp hcaret ▸ (List.prefix_append host _).isInfix : host <:+: rest).trans hrest
      have hne : host ≠ [] := by
        rintro rfl
        cases hcheck
      exact ⟨(ht.of_infix hhost hne).lower, fun c => Text.isUpper_of_mem_lower⟩
    | none =>
      simp only [hbars, hcaret] at hcheck ⊢
      have hne : rest ≠ [] := by
        rintro rfl
        cases hcheck
      refine ⟨(ht.of_infix hrest hne).lower, fun c => Text.isUpper_of_mem_lower, fun hlast => ?_⟩
      rw [← List.singleton_suffix_iff_getLast?_eq_some] at hlast
      exact isSuffixOf?_eq_none.mp hcaret (Text.suffix_of_suffix_lower (by decide) hlast)
  | none =>
    cases hbar : ['|'].isPrefixOf? t with
    | some rest =>
      simp only [hbars, hbar] at hcheck ⊢
      have htext := isPrefixOf?_eq_some.mp hbar
      have hne : rest ≠ [] := by
        rintro rfl
        cases hcheck
      refine ⟨ht.of_infix (htext ▸ (List.suffix_append _ rest).isInfix) hne, fun hhead => ?_⟩
      -- a second bar would have made it a host
      rw [← List.singleton_prefix_iff_head?_eq_some] at hhead
      exact isPrefixOf?_eq_none.mp hbars (htext ▸ (List.prefix_append_right_inj ['|']).mpr hhead)
    | none =>
      cases hend : ['|'].isSuffixOf? t with
      | some rest =>
        simp only [hbars, hbar, hend] at hcheck ⊢
        have hne : rest ≠ [] := by
          rintro rfl
          cases hcheck
        exact ht.of_infix (isSuffixOf?_eq_some.mp hend ▸ (List.prefix_append rest _).isInfix) hne
      | none =>
        simp only [hbars, hbar, hend] at hcheck ⊢
        refine wellFormed_ofUnanchored ht ⟨?_, ?_⟩ hcheck
        · rw [ne_eq, ← List.singleton_prefix_iff_head?_eq_some]
          exact isPrefixOf?_eq_none.mp hbar
        · rw [ne_eq, ← List.singleton_suffix_iff_getLast?_eq_some]
          exact isSuffixOf?_eq_none.mp hend

end Pattern

namespace Rule

variable [Regex.Library]

/-- A rule as a line can give it: the action fits the body, and the rank is that of the action and the options, or the
lowest for an element rule. -/
def WellFormed (r : Rule) : Prop :=
  match r.body with
  | .network p o => (r.action = .block ∨ r.action = .allow) ∧ r.priority = Priority.ofNetwork r.action o ∧ p.WellFormed
  | .cosmetic g => (r.action = .hide ∨ r.action = .unhide) ∧ r.priority = 1 ∧ Text.IsTrimmed g.selector
  | .procedural g => r.action = .hide ∧ r.priority = 1 ∧ Text.IsTrimmed g.selector

theorem wellFormed_of_ofLine? {source line : Text} {number : Nat} {r : Rule}
    (h : ofLine? source number line = .ok (some r)) : r.WellFormed := by
  rcases Line.rule?_cases h with ⟨l, p, o, hline, hread, rfl⟩ | ⟨mark, pages, selector, -, hne, rfl⟩
  · obtain ⟨-, -, -, rfl⟩ := Line.ofText_eq_network_iff.mp hline
    have hdollar := (NetworkLine.ofText_eq_iff.mp (rfl : NetworkLine.ofText line.trim = _)).1.dollar
    obtain ⟨-, hne, hcheck, rfl⟩ := NetworkLine.read_eq_ok_iff.mp hread
    have hkept : Pattern.IsKept (NetworkLine.ofText line.trim).pattern.trim :=
      ⟨hne, fun hd => hdollar ((Text.trim_infix _).subset hd)⟩
    exact ⟨NetworkLine.ofText_action line.trim, rfl, Pattern.wellFormed_ofText hkept hcheck⟩
  · have hselector : Text.IsTrimmed selector.trim := ⟨hne, Text.trim_trim selector⟩
    by_cases hmark : mark = Line.proceduralMark
    · subst hmark
      exact ⟨rfl, rfl, hselector⟩
    · rw [Line.elementBody, if_neg hmark]
      refine ⟨?_, rfl, hselector⟩
      unfold Line.elementAction
      split_ifs
      · exact Or.inr rfl
      · exact Or.inl rfl

end Rule

namespace Line

variable [Regex.Library]

theorem line_of_placedRule? {source : Text} {n : Nat} {l : Line} {r : Rule} (h : l.placedRule? source n = some r) :
    r.line = n := by
  rcases rule?_cases (rule?_of_placedRule? h) with ⟨_, _, _, -, -, rfl⟩ | ⟨_, _, _, -, -, rfl⟩
  · rfl
  · rfl

/-- The rules on lines numbered from `n` on carry some of these numbers, in order and each once. -/
theorem map_line_rulesFrom_sublist (source : Text) (n : Nat) (ls : List Line) :
    ((rulesFrom source n ls).map Rule.line).Sublist (List.range' n ls.length) := by
  induction ls generalizing n with
  | nil => exact List.Sublist.slnil
  | cons l ls ih =>
    rw [rulesFrom_cons, List.length_cons, List.range'_succ]
    cases hl : l.placedRule? source n with
    | none => exact (ih (n + 1)).cons n
    | some r =>
      rw [Option.toList_some, List.singleton_append, List.map_cons, line_of_placedRule? hl]
      exact (ih (n + 1)).cons_cons n

end Line

namespace FilterList

theorem map_line_rules_sublist [Regex.Library] (l : FilterList) :
    (l.read.rules.map Rule.line).Sublist (List.range' 1 (Text.lines l.text).length) := by
  have hrules : l.read.rules = Line.rulesFrom l.name 1 ((Text.lines l.text).map Line.ofText) :=
    filterMap_rule?_readFrom l.name 1 (Text.lines l.text)
  rw [hrules]
  simpa using Line.map_line_rulesFrom_sublist l.name 1 ((Text.lines l.text).map Line.ofText)

/-- The rules of a list are well formed, and their line numbers rise within the text. -/
theorem wellFormed_rules [Regex.Library] (l : FilterList) :
    (∀ r ∈ l.read.rules, r.WellFormed) ∧
    (l.read.rules.map Rule.line).Pairwise (· < ·) ∧
    ∀ r ∈ l.read.rules, 1 ≤ r.line ∧ r.line ≤ (Text.lines l.text).length := by
  have hnumbers := l.map_line_rules_sublist
  refine ⟨fun r hr => ?_, (List.pairwise_lt_range' (s := 1)).sublist hnumbers, fun r hr => ?_⟩
  · obtain ⟨n, t, ht⟩ := exists_line_of_mem_read hr
    exact Rule.wellFormed_of_ofLine? ht
  · have hmem := List.mem_range'_1.mp (hnumbers.subset (List.mem_map_of_mem hr))
    omega

-- what is left of an anchor alone is no pattern
example : (read ⟨[], "|\n||A.com^\n||^\n@@|\n$\n/ad".toList⟩).rules.map Rule.line = [2, 6] := by decide

end FilterList

end Blocklist
