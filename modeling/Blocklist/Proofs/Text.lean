import Blocklist.Text.Basic
import Mathlib.Data.List.Chain
import Mathlib.Data.List.DropRight
import Mathlib.Data.List.Infix
import Mathlib.Tactic.SplitIfs

/-! The cuts of a text: where a mark is found, what the pieces between separators are, and when there is nothing
to trim. -/

namespace Blocklist

theorem isPrefixOf?_eq_some {p t rest : Text} : p.isPrefixOf? t = some rest ↔ t = p ++ rest := by
  induction p generalizing t with
  | nil => simp [List.isPrefixOf?, eq_comm]
  | cons a p ih =>
    cases t with
    | nil => simp [List.isPrefixOf?]
    | cons b t =>
      by_cases h : a = b
      · subst h; simp [List.isPrefixOf?, ih]
      · simp [List.isPrefixOf?, h, Ne.symm h]

theorem isPrefixOf?_eq_none {p t : Text} : p.isPrefixOf? t = none ↔ ¬ p <+: t := by
  rw [Option.eq_none_iff_forall_ne_some]
  refine ⟨fun h ⟨r, hr⟩ => h r (isPrefixOf?_eq_some.mpr hr.symm), fun h r hr => h ?_⟩
  rw [isPrefixOf?_eq_some.mp hr]
  exact List.prefix_append _ _

theorem isSuffixOf?_eq_some {p t rest : Text} : p.isSuffixOf? t = some rest ↔ t = rest ++ p := by
  rw [List.isSuffixOf?, Option.map_eq_some_iff]
  constructor
  · rintro ⟨r, hr, rfl⟩
    rw [isPrefixOf?_eq_some] at hr
    rw [← List.reverse_inj, hr, List.reverse_append, List.reverse_reverse]
  · rintro rfl
    exact ⟨rest.reverse, isPrefixOf?_eq_some.mpr (List.reverse_append), List.reverse_reverse rest⟩

theorem isSuffixOf?_eq_none {p t : Text} : p.isSuffixOf? t = none ↔ ¬ p <:+ t := by
  rw [Option.eq_none_iff_forall_ne_some]
  refine ⟨fun h ⟨r, hr⟩ => h r (isSuffixOf?_eq_some.mpr hr.symm), fun h r hr => h ?_⟩
  rw [isSuffixOf?_eq_some.mp hr]
  exact List.suffix_append _ _

namespace Text

theorem cut_eq_none {mark t : Text} : cut mark t = none ↔ ¬ mark <:+: t := by
  induction t with
  | nil => simp [cut]
  | cons c t ih =>
    unfold cut
    cases hp : mark.isPrefixOf? (c :: t) with
    | some rest =>
      have : mark <+: c :: t := ⟨rest, (isPrefixOf?_eq_some.mp hp).symm⟩
      simpa [hp] using this.isInfix
    | none =>
      simp [ih, List.infix_cons_iff, isPrefixOf?_eq_none.mp hp]

theorem occurs_iff {mark t : Text} : occurs mark t = true ↔ mark <:+: t := by
  rw [← not_iff_not, ← cut_eq_none, occurs]
  simp

/-- A character twice in a row, seen from one character to the next. -/
theorem not_infix_twice_iff {c : Char} {t : Text} : ¬ [c, c] <:+: t ↔ t.IsChain fun a b => a = c → b ≠ c := by
  rw [List.isChain_iff_forall_rel_of_append_cons_cons]
  constructor
  · rintro h a b x y rfl rfl rfl
    exact h ⟨x, y, by simp⟩
  · rintro h ⟨x, y, rfl⟩
    exact @h c c x y (by simp) rfl rfl

/-- Around an occurrence of the character, there is no second one beside it nor two in a row on either side. -/
theorem not_infix_twice_append {c : Char} {a b : Text} : ¬ [c, c] <:+: a ++ c :: b ↔
    (¬ [c, c] <:+: a ∧ a.getLast? ≠ some c) ∧ ¬ [c, c] <:+: b ∧ b.head? ≠ some c := by
  have hnone (o : Option Char) : o ≠ some c ↔ ∀ d ∈ o, d ≠ c :=
    ⟨fun h d hd he => h (he ▸ hd), fun h ho => h c ho rfl⟩
  simp only [not_infix_twice_iff, List.isChain_append, List.isChain_cons, hnone, List.head?_cons, Option.mem_some_iff,
    forall_eq', forall_const, not_true_eq_false, imp_false, ne_eq]
  constructor
  · rintro ⟨ha, ⟨hhead, hb⟩, hlast⟩
    exact ⟨⟨ha, hlast⟩, hb, hhead⟩
  · rintro ⟨⟨ha, hlast⟩, hb, hhead⟩
    exact ⟨ha, ⟨hhead, hb⟩, hlast⟩

/-- A mark is never found in a text without its first character. -/
theorem infix_append_of_not_mem {c : Char} {m a b : Text} (ha : c ∉ a) :
    c :: m <:+: a ++ b ↔ c :: m <:+: b := by
  induction a with
  | nil => rfl
  | cons d a ih =>
    simp only [List.mem_cons, not_or] at ha
    rw [List.cons_append, List.infix_cons_iff, ih ha.2, List.cons_prefix_cons]
    simp [ha.1]

theorem prefix_of_prefix_append_cons {sep : Char} {m a b : Text} (hm : sep ∉ m) (h : m <+: a ++ sep :: b) :
    m <+: a := by
  rcases List.prefix_or_prefix_of_prefix h (List.prefix_append a (sep :: b)) with hle | ⟨r, rfl⟩
  · exact hle
  · have hr : r <+: sep :: b := (List.prefix_append_right_inj a).mp h
    cases r with
    | nil => simp
    | cons c r => exact absurd (List.cons_prefix_cons.mp hr).1 fun hc => hm (by simp [hc])

/-- What holds no separator lies on one side of it. -/
theorem infix_of_infix_append_cons {sep : Char} {m a b : Text} (hm : sep ∉ m) (h : m <:+: a ++ sep :: b) :
    m <:+: a ∨ m <:+: b := by
  induction a with
  | nil =>
    rcases List.infix_cons_iff.mp h with h | h
    · exact Or.inl (prefix_of_prefix_append_cons (a := []) hm h).isInfix
    · exact Or.inr h
  | cons d a ih =>
    rcases List.infix_cons_iff.mp h with h | h
    · exact Or.inl (prefix_of_prefix_append_cons (a := d :: a) hm h).isInfix
    · exact (ih h).imp_left List.infix_cons

theorem exists_infix_of_infix_intercalate {sep : Char} {m : Text} (hm : sep ∉ m) (hne : m ≠ []) {ts : List Text}
    (h : m <:+: [sep].intercalate ts) : ∃ t ∈ ts, m <:+: t := by
  induction ts with
  | nil => exact absurd (List.infix_nil.mp h) hne
  | cons t ts ih =>
    cases ts with
    | nil => exact ⟨t, by simp, by simpa [List.intercalate] using h⟩
    | cons u ts =>
      rw [List.intercalate_cons_cons, List.append_assoc, List.singleton_append] at h
      rcases infix_of_infix_append_cons hm h with h | h
      · exact ⟨t, by simp, h⟩
      · obtain ⟨v, hv, hin⟩ := ih h
        exact ⟨v, List.mem_cons_of_mem t hv, hin⟩

/-- A mark is found behind a text that has none of its first characters. -/
theorem cut_append {c : Char} {m pre : Text} (rest : Text) (h : c ∉ pre) :
    cut (c :: m) (pre ++ (c :: m) ++ rest) = some (pre, rest) := by
  induction pre with
  | nil =>
    have hp : (c :: m).isPrefixOf? (c :: (m ++ rest)) = some rest := isPrefixOf?_eq_some.mpr rfl
    simp [cut, hp]
  | cons d pre ih =>
    simp only [List.mem_cons, not_or] at h
    have hp : (c :: m).isPrefixOf? (d :: (pre ++ (c :: m) ++ rest)) = none := by
      rw [isPrefixOf?_eq_none, List.cons_prefix_cons]
      exact fun he => h.1 he.1
    simp only [List.cons_append, cut, hp, ih h.2, Option.map_some]

theorem splitWhen_eq_splitOnP (p : Char → Bool) (t : Text) : splitWhen p t = t.splitOnP p := by
  induction t with
  | nil => rfl
  | cons c t ih =>
    rw [splitWhen, List.splitOnP_cons_eq_if_modifyHead, ih]
    split_ifs
    · rfl
    · cases h : t.splitOnP p with
      | nil => exact absurd h (List.splitOnP_ne_nil p t)
      | cons w ws => rfl

theorem splitWhen_ne_nil (p : Char → Bool) (t : Text) : t.splitWhen p ≠ [] := by
  rw [splitWhen_eq_splitOnP]
  exact List.splitOnP_ne_nil p t

theorem splitWhen_append {p : Char → Bool} {a t : Text} {w : Text} {ws : List Text} (ha : ∀ c ∈ a, p c = false)
    (ht : splitWhen p t = w :: ws) : splitWhen p (a ++ t) = (a ++ w) :: ws := by
  induction a with
  | nil => exact ht
  | cons c a ih =>
    have hc : p c = false := ha c (by simp)
    simp [splitWhen, hc, ih fun d hd => ha d (by simp [hd])]

theorem splitWhen_append_cons {p : Char → Bool} {c : Char} (hc : p c = true) (t u : Text) :
    splitWhen p (t ++ c :: u) = splitWhen p t ++ splitWhen p u := by
  rw [splitWhen_eq_splitOnP, splitWhen_eq_splitOnP, splitWhen_eq_splitOnP]
  exact List.splitOnP_append_cons t u hc

/-- The pieces of texts with a separator between them are the pieces of these texts. -/
theorem splitOn_intercalate (sep : Char) {ts : List Text} (h : ts ≠ []) :
    splitOn sep ([sep].intercalate ts) = ts.flatMap (splitOn sep) := by
  induction ts with
  | nil => exact absurd rfl h
  | cons t ts ih =>
    cases ts with
    | nil => simp [List.intercalate]
    | cons u ts =>
      rw [List.intercalate_cons_cons, List.append_assoc, List.singleton_append, List.flatMap_cons, ← ih (by simp)]
      exact splitWhen_append_cons (p := (· == sep)) (beq_self_eq_true sep) t _

/-- Putting the separators back gives the text. -/
theorem intercalate_splitOn (sep : Char) (t : Text) : [sep].intercalate (splitOn sep t) = t := by
  rw [splitOn, splitWhen_eq_splitOnP]
  exact List.intercalate_splitOn sep

theorem length_splitOn (sep : Char) (t : Text) : (splitOn sep t).length = t.count sep + 1 := by
  unfold splitOn
  induction t with
  | nil => rfl
  | cons c t ih =>
    rw [splitWhen, List.count_cons]
    split_ifs with h
    · rw [List.length_cons, ih]
    · obtain ⟨w, ws, hw⟩ := List.exists_cons_of_ne_nil (splitWhen_ne_nil (· == sep) t)
      rw [hw] at ih ⊢
      exact ih

/-- A text that goes on goes on with its last piece. -/
theorem exists_splitOn_append (sep : Char) (t x : Text) :
    ∃ ts w v vs, splitOn sep t = ts ++ [w] ∧ splitOn sep (t ++ x) = ts ++ (w ++ v) :: vs := by
  unfold splitOn
  induction t with
  | nil =>
    obtain ⟨v, vs, hx⟩ := List.exists_cons_of_ne_nil (splitWhen_ne_nil (· == sep) x)
    exact ⟨[], [], v, vs, rfl, hx⟩
  | cons c t ih =>
    obtain ⟨ts, w, v, vs, ht, hx⟩ := ih
    by_cases hc : c = sep
    · exact ⟨[] :: ts, w, v, vs, by simp [splitWhen, hc, ht], by simp [splitWhen, hc, hx]⟩
    · cases ts with
      | nil => exact ⟨[], c :: w, v, vs, by simp [splitWhen, hc, ht], by simp [splitWhen, hc, hx]⟩
      | cons u us => exact ⟨(c :: u) :: us, w, v, vs, by simp [splitWhen, hc, ht], by simp [splitWhen, hc, hx]⟩

/-- A piece lies in the text and has no separator. -/
theorem mem_splitWhen {p : Char → Bool} {t w : Text} (h : w ∈ splitWhen p t) : (∀ c ∈ w, p c = false) ∧ w <:+: t := by
  -- the first piece also begins the text, which is what a further character in front of it needs
  suffices hall : (∃ v vs, splitWhen p t = v :: vs ∧ v <+: t) ∧
      ∀ w ∈ splitWhen p t, (∀ c ∈ w, p c = false) ∧ w <:+: t from hall.2 w h
  clear h w
  induction t with
  | nil => simp [splitWhen]
  | cons c t ih =>
    obtain ⟨⟨v, vs, hv, hbegins⟩, ih⟩ := ih
    by_cases hc : p c = true
    · have hsplit : splitWhen p (c :: t) = [] :: splitWhen p t := by simp [splitWhen, hc]
      rw [hsplit]
      refine ⟨⟨[], _, rfl, List.nil_prefix⟩, fun w hw => ?_⟩
      rcases List.mem_cons.mp hw with rfl | hw
      · exact ⟨by simp, List.nil_infix⟩
      · exact ⟨(ih w hw).1, List.infix_cons (ih w hw).2⟩
    · have hsplit : splitWhen p (c :: t) = (c :: v) :: vs := by simp [splitWhen, hc, hv]
      have hfirst : c :: v <+: c :: t := List.cons_prefix_cons.mpr ⟨rfl, hbegins⟩
      rw [hv] at ih
      rw [hsplit]
      refine ⟨⟨c :: v, vs, rfl, hfirst⟩, fun w hw => ?_⟩
      rcases List.mem_cons.mp hw with rfl | hw
      · refine ⟨fun d hd => ?_, hfirst.isInfix⟩
        rcases List.mem_cons.mp hd with rfl | hd
        · simpa using hc
        · exact (ih v (by simp)).1 d hd
      · have hpiece := ih w (List.mem_cons_of_mem v hw)
        exact ⟨hpiece.1, List.infix_cons hpiece.2⟩

theorem not_mem_of_mem_splitOn {sep : Char} {t w : Text} (h : w ∈ splitOn sep t) : sep ∉ w := by
  intro hsep
  simpa using (mem_splitWhen h).1 sep hsep

theorem trimWhen_eq_self {p : Char → Bool} {t : Text} (hh : ∀ c ∈ t.head?, p c = false)
    (hl : ∀ c ∈ t.getLast?, p c = false) : t.trimWhen p = t := by
  have hdrop (s : Text) (hs : ∀ c ∈ s.head?, p c = false) : s.dropWhile p = s := by
    cases s with
    | nil => rfl
    | cons c s => simp [hs c rfl]
  rw [trimWhen, hdrop t hh, hdrop t.reverse (by simpa using hl), List.reverse_reverse]

theorem trim_eq_self {t : Text} (hh : ∀ c ∈ t.head?, isBlank c = false) (hl : ∀ c ∈ t.getLast?, isBlank c = false) :
    t.trim = t := trimWhen_eq_self hh hl

theorem trim_append_singleton {c : Char} (hc : isBlank c = true) (t : Text) : trim (t ++ [c]) = trim t := by
  unfold trim trimWhen
  rw [List.dropWhile_append]
  split
  · rename_i h
    simp [List.isEmpty_iff.mp h, hc]
  · simp [hc]

theorem isBlank_head?_dropWhile (t : Text) : ∀ c ∈ (t.dropWhile isBlank).head?, isBlank c = false := by
  intro c hc
  have hnot := List.head?_dropWhile_not isBlank t
  rwa [hc] at hnot

theorem trim_prefix_dropWhile (t : Text) : t.trim <+: t.dropWhile isBlank :=
  List.rdropWhile_prefix isBlank (t.dropWhile isBlank)

theorem trim_isPrefix {t : Text} (h : ∀ c ∈ t.head?, isBlank c = false) : t.trim <+: t := by
  have hdrop : t.dropWhile isBlank = t := by
    cases t with
    | nil => rfl
    | cons c t => simp [h c rfl]
  simpa only [hdrop] using trim_prefix_dropWhile t

theorem trim_infix (t : Text) : t.trim <:+: t :=
  (trim_prefix_dropWhile t).isInfix.trans (List.dropWhile_suffix isBlank).isInfix

/-- More text behind a text leaves what was not trimmed where it is. -/
theorem trim_prefix_trim_append (t x : Text) : t.trim <+: (t ++ x).trim := by
  unfold trim trimWhen
  rw [List.dropWhile_append]
  split
  · rename_i h
    rw [List.isEmpty_iff.mp h]
    exact List.nil_prefix
  · rw [List.reverse_append, List.dropWhile_append]
    split
    · exact List.prefix_rfl
    · rw [List.reverse_append, List.reverse_reverse]
      exact (List.rdropWhile_prefix isBlank _).trans (List.prefix_append _ _)

theorem isBlank_head?_trim (t : Text) : ∀ c ∈ t.trim.head?, isBlank c = false := by
  intro c hc
  obtain ⟨r, hr⟩ := trim_prefix_dropWhile t
  apply isBlank_head?_dropWhile t
  rw [← hr, List.head?_append, hc]
  rfl

theorem isBlank_getLast?_trim (t : Text) : ∀ c ∈ t.trim.getLast?, isBlank c = false := by
  rw [trim, trimWhen, List.getLast?_reverse]
  exact isBlank_head?_dropWhile _

theorem trim_trim (t : Text) : t.trim.trim = t.trim :=
  trim_eq_self (isBlank_head?_trim t) (isBlank_getLast?_trim t)

structure IsTrimmed (t : Text) : Prop where
  nonempty : t ≠ []
  trimmed : t.trim = t

namespace IsTrimmed

variable {t u : Text}

theorem head (h : IsTrimmed t) : ∀ c ∈ t.head?, isBlank c = false := h.trimmed ▸ isBlank_head?_trim t

theorem last (h : IsTrimmed t) : ∀ c ∈ t.getLast?, isBlank c = false := h.trimmed ▸ isBlank_getLast?_trim t

/-- Blanks between two such texts do no harm. -/
theorem append (ht : IsTrimmed t) (v : Text) (hu : IsTrimmed u) : IsTrimmed (t ++ v ++ u) := by
  refine ⟨by simp [ht.nonempty], trim_eq_self (fun c hc => ht.head c ?_) (fun c hc => hu.last c ?_)⟩
  · rwa [List.append_assoc, List.head?_append_of_ne_nil _ ht.nonempty] at hc
  · rwa [List.getLast?_append_of_ne_nil _ hu.nonempty] at hc

theorem intercalate (sep : Text) {ts : List Text} (h : ∀ t ∈ ts, IsTrimmed t) (hts : ts ≠ []) :
    IsTrimmed (sep.intercalate ts) := by
  induction ts with
  | nil => exact absurd rfl hts
  | cons t ts ih =>
    cases ts with
    | nil => simpa [List.intercalate] using h t (by simp)
    | cons u ts =>
      rw [List.intercalate_cons_cons]
      exact (h t (by simp)).append sep (ih (fun v hv => h v (by simp [hv])) (by simp))

end IsTrimmed

end Text

end Blocklist
