import Blocklist.Proofs.Text

/-! Small letters. Only the capitals of ASCII are changed, and they become small letters; so blanks, separators and
marks stay what they are and where they are. -/

namespace Blocklist

/-- A fact about all characters below 128 that can be checked one by one. -/
theorem forall_ascii {P : Char → Prop} (h : ∀ n < 128, P (Char.ofNat n)) {c : Char} (hc : c.toNat < 128) : P c :=
  Char.ofNat_toNat c ▸ h c.toNat hc

theorem toLower_of_not_ascii {c : Char} (h : ¬ c.toNat < 128) : c.toLower = c := by
  unfold Char.toLower
  rw [dif_neg]
  rintro ⟨-, hle⟩
  exact h (Nat.lt_of_le_of_lt (UInt32.le_iff_toNat_le.mp hle) (by decide))

theorem toLower_toLower (c : Char) : c.toLower.toLower = c.toLower := by
  by_cases hc : c.toNat < 128
  · exact forall_ascii (P := fun c => c.toLower.toLower = c.toLower) (by decide) hc
  · rw [toLower_of_not_ascii hc, toLower_of_not_ascii hc]

theorem isBlank_toLower (c : Char) : isBlank c.toLower = isBlank c := by
  by_cases hc : c.toNat < 128
  · exact forall_ascii (P := fun c => isBlank c.toLower = isBlank c) (by decide) hc
  · rw [toLower_of_not_ascii hc]

theorem toLower_eq_self {c : Char} (h : c.toLower.isLower = false) : c.toLower = c := by
  by_cases hc : c.toNat < 128
  · exact forall_ascii (P := fun c => c.toLower.isLower = false → c.toLower = c) (by decide) hc h
  · exact toLower_of_not_ascii hc

theorem isUpper_toLower (c : Char) : c.toLower.isUpper = false := by
  by_cases hc : c.toNat < 128
  · exact forall_ascii (P := fun c => c.toLower.isUpper = false) (by decide) hc
  · rw [toLower_of_not_ascii hc]
    delta Char.isUpper
    rw [decide_eq_false_iff_not]
    rintro ⟨-, hle⟩
    exact hc (Nat.lt_of_le_of_lt (UInt32.le_iff_toNat_le.mp hle) (by decide))

namespace Text

theorem isUpper_of_mem_lower {c : Char} {t : Text} (h : c ∈ t.lower) : c.isUpper = false := by
  obtain ⟨d, -, rfl⟩ := List.mem_map.mp h
  exact isUpper_toLower d

theorem lower_append (t u : Text) : lower (t ++ u) = lower t ++ lower u := List.map_append

theorem lower_lower (t : Text) : t.lower.lower = t.lower := by
  rw [lower, lower, List.map_map]
  exact List.map_congr_left fun c _ => toLower_toLower c

theorem lower_eq_nil {t : Text} : t.lower = [] ↔ t = [] := List.map_eq_nil_iff

/-- If its small letters are no letters, a text has none. -/
theorem lower_eq_self {t : Text} (h : t.lower.any Char.isLower = false) : t.lower = t := by
  have hnone : ∀ c ∈ t, c.toLower.isLower = false := by simpa [lower] using h
  rw [lower, List.map_congr_left fun c hc => toLower_eq_self (hnone c hc), List.map_id']

section

variable {m t : Text} (hm : m.any Char.isLower = false)

include hm

/-- A text without letters lies in the small letters of a text only if it lies in the text. -/
theorem infix_of_infix_lower (h : m <:+: t.lower) : m <:+: t := by
  obtain ⟨u, hu, rfl⟩ := List.infix_map_iff.mp h
  rwa [show u.map Char.toLower = u from lower_eq_self hm]

theorem prefix_of_prefix_lower (h : m <+: t.lower) : m <+: t := by
  obtain ⟨u, hu, rfl⟩ := List.prefix_map_iff.mp h
  rwa [show u.map Char.toLower = u from lower_eq_self hm]

theorem suffix_of_suffix_lower (h : m <:+ t.lower) : m <:+ t := by
  obtain ⟨u, hu, rfl⟩ := List.suffix_map_iff.mp h
  rwa [show u.map Char.toLower = u from lower_eq_self hm]

end

theorem mem_of_mem_lower {c : Char} {t : Text} (hc : c.isLower = false) (h : c ∈ t.lower) : c ∈ t := by
  obtain ⟨d, hd, rfl⟩ := List.mem_map.mp h
  rwa [toLower_eq_self hc]

theorem lower_of_infix_lower {u t : Text} (h : u <:+: t.lower) : u.lower = u := by
  obtain ⟨v, -, rfl⟩ := List.infix_map_iff.mp h
  exact lower_lower v

/-- Blanks are blanks in small letters too. -/
theorem trim_lower (t : Text) : t.lower.trim = t.trim.lower := by
  have hblank : isBlank ∘ Char.toLower = isBlank := funext isBlank_toLower
  have hdrop (u : Text) : (u.map Char.toLower).dropWhile isBlank = (u.dropWhile isBlank).map Char.toLower := by
    rw [List.dropWhile_map, hblank]
  rw [trim, trimWhen, lower, hdrop, ← List.map_reverse, hdrop, ← List.map_reverse]
  rfl

end Text

end Blocklist
