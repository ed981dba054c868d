import Blocklist.Proofs.Wildcard
import Blocklist.Reduction

/-! The pass that leaves covered rules out. A cover is tested on texts that carry the marks of the filter syntax
and a stand-in for dots. What it matches there it matches in the plain text as well, unless it names such a
mark itself. -/

namespace Blocklist

open Wildcard

/-- `s` is `t` with every dot replaced by a character other than a line feed. -/
def DotsFilled (t s : Text) : Prop := List.Forall₂ (fun c d => if c = '.' then d ≠ '\n' else d = c) t s

instance (t s : Text) : Decidable (DotsFilled t s) := inferInstanceAs (Decidable (List.Forall₂ _ t s))

namespace Pattern

/-- The texts of which an address that the pattern matches contains one. -/
def Plain : Pattern → Text → Prop
  | .hostAnchor t, s | .hostStart t, s | .startAnchor t, s | .endAnchor t, s | .substring t, s => s = t
  | .hostGroup hs, s => s ∈ hs
  | .regex t, s => (∀ c ∈ t, c ∉ Reduction.operators) ∧ DotsFilled t s
  | .wildcard _, _ => False

def marks : Pattern → List Char
  | .hostAnchor _ | .hostGroup _ => ['|', '^']
  | .hostStart _ | .startAnchor _ | .endAnchor _ => ['|']
  | .regex _ => [Reduction.anyChar]
  | .wildcard _ | .substring _ => []

end Pattern

namespace Reduction

theorem isOk_iff {x : Except ε Unit} : x.isOk = true ↔ x = .ok () := by
  cases x <;> simp [Except.isOk, Except.toBool]

/-- What a cover is: a wildcard rule with the same action and at least the scope, which the library takes and which is found in
every text. -/
theorem covers_iff [Regex.Library] {defaults : TypeSet} {w r : Rule} :
    covers defaults w r = true ↔
      ∃ v o p q ts, w.body = .network (.wildcard v) o ∧ r.body = .network p q ∧ w.action = r.action ∧
        o.subsumes q defaults = true ∧ Regex.Library.compile (Wildcard.regex v) = .ok () ∧ coverTexts? p = some ts ∧
        ∀ t ∈ ts, '*' ∉ t ∧ Finds (Wildcard.regex v) t := by
  unfold covers
  split
  · rename_i v o p q hw hr
    simp only [hw, hr, Bool.and_eq_true, beq_iff_eq, Body.network.injEq, Pattern.wildcard.injEq,
      Option.any_eq_true, List.all_eq_true, Bool.not_eq_true', List.contains_eq_mem,
      decide_eq_false_iff_not, occursIn_iff_finds, isOk_iff]
    constructor
    · rintro ⟨⟨⟨ha, ho⟩, ts, ht, h⟩, hv⟩
      exact ⟨v, o, p, q, ts, ⟨rfl, rfl⟩, ⟨rfl, rfl⟩, ha, ho, hv, ht, h⟩
    · rintro ⟨_, _, _, _, ts, ⟨rfl, rfl⟩, ⟨rfl, rfl⟩, ha, ho, hv, ht, h⟩
      exact ⟨⟨⟨ha, ho⟩, ts, ht, h⟩, hv⟩
  · rename_i hne
    simp only [Bool.false_eq_true, false_iff]
    rintro ⟨v, o, p, q, -, hw, hr, -⟩
    exact hne _ _ _ _ hw hr

theorem coverTexts?_regex {t : Text} {ts : List Text} (h : coverTexts? (.regex t) = some ts) :
    (∀ c ∈ t, c ∉ operators) ∧ ts = [t.map fun c => if c = '.' then anyChar else c] := by
  simp only [coverTexts?] at h
  split_ifs at h with ho
  simp only [Option.some.injEq] at h
  exact ⟨by simpa using ho, h.symm⟩

theorem retouched_dotsFilled {t s : Text} (h : DotsFilled t s) :
    Retouched (· ∈ [anyChar]) (t.map fun c => if c = '.' then anyChar else c) s := by
  induction h with
  | nil => exact .nil
  | cons hcd _ ih =>
    simp only [List.map_cons]
    split_ifs at hcd ⊢ with hc
    · exact ih.swap (by simp) hcd
    · rw [hcd]
      exact ih.keep

theorem retouched_anchorText (h : Text) : Retouched (· ∈ ['|', '^']) (Pattern.anchorText h) h := by
  have hpre : Retouched (· ∈ ['|', '^']) ['|', '|'] [] := .erase (by simp)
  have hsuf : Retouched (· ∈ ['|', '^']) ['^'] [] := .erase (by simp)
  simpa [Pattern.anchorText] using (hpre.append (.refl h)).append hsuf

/-- Every plain text is a text for a cover with its marks retouched. -/
theorem exists_coverText {p : Pattern} {ts : List Text} {s : Text} (h : coverTexts? p = some ts) (hs : p.Plain s) :
    ∃ t ∈ ts, Retouched (· ∈ p.marks) t s := by
  have hbar : Retouched (· ∈ ['|']) ['|'] [] := .erase (by simp)
  cases p with
  | wildcard => exact hs.elim
  | regex t =>
    obtain ⟨-, rfl⟩ := coverTexts?_regex h
    exact ⟨_, List.mem_singleton_self _, retouched_dotsFilled hs.2⟩
  | hostGroup hs' =>
    obtain rfl := Option.some.inj h
    exact ⟨_, List.mem_map_of_mem hs, retouched_anchorText s⟩
  | hostAnchor t =>
    obtain rfl := Option.some.inj h
    obtain rfl : s = t := hs
    exact ⟨_, List.mem_singleton_self _, retouched_anchorText s⟩
  | hostStart t =>
    obtain rfl := Option.some.inj h
    obtain rfl : s = t := hs
    exact ⟨_, List.mem_singleton_self _, (hbar.append hbar).append (.refl s)⟩
  | startAnchor t =>
    obtain rfl := Option.some.inj h
    obtain rfl : s = t := hs
    exact ⟨_, List.mem_singleton_self _, hbar.append (.refl s)⟩
  | endAnchor t =>
    obtain rfl := Option.some.inj h
    obtain rfl : s = t := hs
    have hend := (Retouched.refl s).append hbar
    rw [List.append_nil] at hend
    exact ⟨_, List.mem_singleton_self _, hend⟩
  | substring t =>
    obtain rfl := Option.some.inj h
    obtain rfl : s = t := hs
    exact ⟨_, List.mem_singleton_self _, .refl s⟩

/-- A wildcard without the marks that is found in the texts for a cover is found in the plain ones. -/
theorem finds_plain {p : Pattern} {ts : List Text} {v s : Text} (h : coverTexts? p = some ts)
    (hv : ∀ t ∈ ts, Finds (Wildcard.regex v) t) (hm : ∀ c ∈ p.marks, c ∉ v) (hs : p.Plain s) :
    Finds (Wildcard.regex v) s := by
  obtain ⟨t, ht, hr⟩ := exists_coverText h hs
  exact (hv t ht).retouched (fun c hc hcm => hm c hcm hc) hr

variable [Regex.Library]

theorem clearFrom_of_covered {defaults : TypeSet} {kept : List Rule} {r : Rule} (rs : List Rule)
    (h : (kept.any fun w => covers defaults w r) = true) :
    clearFrom defaults kept (r :: rs) =
      ⟨(clearFrom defaults kept rs).kept, r :: (clearFrom defaults kept rs).covered⟩ := by
  simp [clearFrom, h]

theorem clearFrom_of_not_covered {defaults : TypeSet} {kept : List Rule} {r : Rule} (rs : List Rule)
    (h : ¬ (kept.any fun w => covers defaults w r) = true) :
    clearFrom defaults kept (r :: rs) = clearFrom defaults (r :: kept) rs := by
  rw [clearFrom, if_neg h]

/-- What a run of the pass gives: all rules are kept or covered, and a covered one stands behind its cover. -/
structure Splits (defaults : TypeSet) (rules : List Rule) (c : Cleared) : Prop where
  mem : ∀ r ∈ rules, r ∈ c.kept ∨ r ∈ c.covered
  kept : ∀ r ∈ c.kept, r ∈ rules
  covered : ∀ r ∈ c.covered, ∃ w ∈ c.kept, covers defaults w r = true ∧ [w, r].Sublist rules

theorem mem_kept_clearFrom {defaults : TypeSet} {kept rs : List Rule} {x : Rule} (hx : x ∈ kept) :
    x ∈ (clearFrom defaults kept rs).kept := by
  induction rs generalizing kept with
  | nil => simpa [clearFrom] using hx
  | cons r rs ih =>
    by_cases h : (kept.any fun w => covers defaults w r) = true
    · rw [clearFrom_of_covered rs h]
      exact ih hx
    · rw [clearFrom_of_not_covered rs h]
      exact ih (List.mem_cons_of_mem _ hx)

theorem clearFrom_splits (defaults : TypeSet) (kept rs : List Rule) :
    Splits defaults (kept.reverse ++ rs) (clearFrom defaults kept rs) := by
  induction rs generalizing kept with
  | nil => exact ⟨by simp [clearFrom], by simp [clearFrom], by simp [clearFrom]⟩
  | cons r rs ih =>
    by_cases h : (kept.any fun w => covers defaults w r) = true
    · rw [clearFrom_of_covered rs h]
      have hsub : (kept.reverse ++ rs).Sublist (kept.reverse ++ r :: rs) :=
        (List.sublist_cons_self r rs).append_left kept.reverse
      refine ⟨fun s hs => ?_, fun s hs => hsub.subset ((ih kept).kept s hs), fun s hs => ?_⟩
      · rcases List.mem_append.mp hs with hs | hs
        · exact ((ih kept).mem s (List.mem_append_left _ hs)).imp id (List.mem_cons_of_mem _)
        · rcases List.mem_cons.mp hs with rfl | hs
          · exact Or.inr (by simp)
          · exact ((ih kept).mem s (List.mem_append_right _ hs)).imp id (List.mem_cons_of_mem _)
      · rcases List.mem_cons.mp hs with rfl | hs
        · obtain ⟨w, hw, hc⟩ := List.any_eq_true.mp h
          have hwk : [w].Sublist kept.reverse := List.singleton_sublist.mpr (by simpa using hw)
          exact ⟨w, mem_kept_clearFrom hw, hc, hwk.append (by simp : [s].Sublist (s :: rs))⟩
        · obtain ⟨w, hw, hc, ho⟩ := (ih kept).covered s hs
          exact ⟨w, hw, hc, ho.trans hsub⟩
    · rw [clearFrom_of_not_covered rs h]
      simpa using ih (r :: kept)

theorem clear_splits (defaults : TypeSet) (rules : List Rule) : Splits defaults rules (clear defaults rules) :=
  clearFrom_splits defaults [] rules

end Reduction

end Blocklist
