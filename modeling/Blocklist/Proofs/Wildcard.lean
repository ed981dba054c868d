import Blocklist.Pattern
import Blocklist.Proofs.Text

/-! What a wildcard pattern matches. Its regular expression is read token by token: `.*` takes any characters
of one line, every other token is one character. `occursIn`, which always takes the first occurrence of a
piece, answers yes exactly if that expression is found. A match never sees the characters the pattern does not
name, so they may be dropped or exchanged without losing it. -/

namespace Blocklist.Wildcard

inductive Token where
  /-- A character, written plainly or behind a backslash. -/
  | char (c : Char)
  /-- `.*` -/
  | run
deriving DecidableEq

/-- Reads a regular expression made of such tokens; none if there is anything else in it. -/
def tokens? : Text → Option (List Token)
  | [] => some []
  | '\\' :: c :: r => if specials.contains c then (tokens? r).map (.char c :: ·) else none
  | '.' :: '*' :: r => (tokens? r).map (.run :: ·)
  | c :: r => if specials.contains c then none else (tokens? r).map (.char c :: ·)

def OneLine (t : Text) : Prop := '\n' ∉ t

theorem oneLine_append {a b : Text} : OneLine (a ++ b) ↔ OneLine a ∧ OneLine b := by
  simp [OneLine, not_or]

inductive Fits : List Token → Text → Prop
  | nil : Fits [] []
  | char {c : Char} {ks : List Token} {t : Text} (h : Fits ks t) : Fits (.char c :: ks) (c :: t)
  | run {g : Text} {ks : List Token} {t : Text} (hg : OneLine g) (h : Fits ks t) : Fits (.run :: ks) (g ++ t)

theorem fits_char {c : Char} {ks : List Token} {t : Text} :
    Fits (.char c :: ks) t ↔ ∃ m, Fits ks m ∧ t = c :: m := by
  constructor
  · rintro (_ | ⟨h⟩)
    exact ⟨_, h, rfl⟩
  · rintro ⟨m, h, rfl⟩
    exact .char h

theorem fits_run {ks : List Token} {t : Text} :
    Fits (.run :: ks) t ↔ ∃ g m, OneLine g ∧ Fits ks m ∧ t = g ++ m := by
  constructor
  · rintro (_ | _ | ⟨hg, h⟩)
    exact ⟨_, _, hg, h, rfl⟩
  · rintro ⟨g, m, hg, h, rfl⟩
    exact .run hg h

/-- The unanchored search: the regular expression matches some part of `u`. -/
def Finds (regex u : Text) : Prop := ∃ ks, tokens? regex = some ks ∧ ∃ m, Fits ks m ∧ m <:+: u

def tokenOf (c : Char) : Token := if c = '*' then .run else .char c

theorem pieces_star (w : Text) : pieces ('*' :: w) = [] :: pieces w := rfl

theorem pieces_char {c : Char} (hc : c ≠ '*') {w p : Text} {ps : List Text} (h : pieces w = p :: ps) :
    pieces (c :: w) = (c :: p) :: ps := by
  unfold pieces Text.splitOn at h ⊢
  simp [Text.splitWhen, hc, h]

theorem exists_pieces (w : Text) : ∃ p ps, pieces w = p :: ps :=
  List.exists_cons_of_ne_nil (Text.splitWhen_ne_nil _ w)

theorem regex_star (w : Text) : regex ('*' :: w) = '.' :: '*' :: regex w := by
  obtain ⟨p, ps, h⟩ := exists_pieces w
  simp [regex, pieces_star, h, escape, List.intercalate]

theorem regex_char {c : Char} (hc : c ≠ '*') (w : Text) : regex (c :: w) = escapeChar c ++ regex w := by
  obtain ⟨p, ps, h⟩ := exists_pieces w
  simp only [regex, pieces_char hc h, h, List.map_cons, escape, List.flatMap_cons]
  cases ps <;> simp [List.intercalate]

theorem tokens?_escapeChar (c : Char) (r : Text) :
    tokens? (escapeChar c ++ r) = (tokens? r).map (.char c :: ·) := by
  unfold escapeChar
  split_ifs with h
  · rw [List.cons_append, List.singleton_append, tokens?, if_pos h]
  · have hb : c ≠ '\\' := by rintro rfl; exact h (by decide)
    have hd : c ≠ '.' := by rintro rfl; exact h (by decide)
    rw [List.singleton_append, tokens?.eq_4 _ _ (fun _ _ he => absurd he hb) (fun _ he => absurd he hd), if_neg h]

/-- Reading the regular expression of a wildcard gives the wildcard back, token by token. -/
theorem tokens?_regex (w : Text) : tokens? (regex w) = some (w.map tokenOf) := by
  induction w with
  | nil => rfl
  | cons c w ih =>
    by_cases hc : c = '*'
    · subst hc
      simp [regex_star, tokens?, ih, tokenOf]
    · simp [regex_char hc, tokens?_escapeChar, ih, tokenOf, hc]

theorem finds_regex {w u : Text} : Finds (regex w) u ↔ ∃ m, Fits (w.map tokenOf) m ∧ m <:+: u := by
  simp [Finds, tokens?_regex]

/-- The pieces occur in order, each behind the last one and on the line where that one ends. -/
inductive Follows : List Text → Text → Prop
  | nil (t : Text) : Follows [] t
  | cons {g p r : Text} {ps : List Text} (hg : OneLine g) (h : Follows ps r) : Follows (p :: ps) (g ++ p ++ r)

theorem follows_cons {p t : Text} {ps : List Text} :
    Follows (p :: ps) t ↔ ∃ g r, OneLine g ∧ Follows ps r ∧ t = g ++ p ++ r := by
  constructor
  · rintro (_ | ⟨hg, h⟩)
    exact ⟨_, _, hg, h, rfl⟩
  · rintro ⟨g, r, hg, h, rfl⟩
    exact .cons hg h

theorem Follows.prepend {x t : Text} {ps : List Text} (hx : OneLine x) (h : Follows ps t) : Follows ps (x ++ t) := by
  cases h with
  | nil => exact .nil _
  | cons hg h =>
    rw [← List.append_assoc, ← List.append_assoc]
    exact .cons (oneLine_append.mpr ⟨hx, hg⟩) h

theorem afterFirst_sound {p t rest : Text} (h : afterFirst p t = some rest) :
    ∃ g, OneLine g ∧ t = g ++ p ++ rest := by
  induction t with
  | nil =>
    unfold afterFirst at h
    split_ifs at h with hp
    simp only [Option.some.injEq] at h
    exact ⟨[], by simp [OneLine], by simp [hp, ← h]⟩
  | cons c r ih =>
    unfold afterFirst at h
    cases hp : p.isPrefixOf? (c :: r) with
    | some s =>
      simp only [hp, Option.some.injEq] at h
      exact ⟨[], by simp [OneLine], by simp [isPrefixOf?_eq_some.mp hp, h]⟩
    | none =>
      simp only [hp] at h
      split_ifs at h with hc
      obtain ⟨g, hg, rfl⟩ := ih h
      exact ⟨c :: g, by simpa [OneLine, Ne.symm hc] using hg, rfl⟩

/-- Two occurrences of `p` that start on one line have no line feed between their ends: if `p` has line feeds,
they are the same. -/
theorem oneLine_of_append_eq {g p x : Text} (hg : OneLine g) (h : g ++ p = p ++ x) : OneLine x := by
  have hc := congrArg (List.count '\n') h
  rw [List.count_append, List.count_append, List.count_eq_zero.mpr hg] at hc
  exact List.count_eq_zero.mp (by omega)

/-- The first occurrence ends no later than any other that starts on the same line. -/
theorem afterFirst_complete (p r : Text) : ∀ {g : Text}, OneLine g →
    ∃ x, OneLine x ∧ afterFirst p (g ++ p ++ r) = some (x ++ r) := by
  intro g
  induction g with
  | nil =>
    intro _
    refine ⟨[], by simp [OneLine], ?_⟩
    cases hp : p ++ r with
    | nil => simp_all [afterFirst]
    | cons c s =>
      have : p.isPrefixOf? (c :: s) = some r := isPrefixOf?_eq_some.mpr hp.symm
      simp [afterFirst, hp, this]
  | cons c g ih =>
    intro hg
    simp only [OneLine, List.mem_cons, not_or] at hg
    simp only [List.cons_append, afterFirst]
    cases hp : p.isPrefixOf? (c :: (g ++ p ++ r)) with
    | none =>
      simp only [Ne.symm hg.1, if_false]
      exact ih hg.2
    | some s =>
      have he : c :: (g ++ p) ++ r = p ++ s := isPrefixOf?_eq_some.mp hp
      have hpre : p <+: c :: (g ++ p) := by
        refine List.prefix_of_prefix_length_le ⟨s, he.symm⟩ (List.prefix_append _ r) ?_
        simp only [List.length_cons, List.length_append]
        omega
      obtain ⟨x, hx⟩ := hpre
      rw [← hx, List.append_assoc, List.append_cancel_left_eq] at he
      have hcg : OneLine (c :: g) := by simpa [OneLine] using hg
      exact ⟨x, oneLine_of_append_eq hcg hx.symm, by rw [he]⟩

theorem follow_iff {ps : List Text} {t : Text} : follow ps t = true ↔ Follows ps t := by
  induction ps generalizing t with
  | nil => exact ⟨fun _ => .nil t, fun _ => rfl⟩
  | cons p ps ih =>
    unfold follow
    constructor
    · intro h
      cases ha : afterFirst p t with
      | none => simp [ha] at h
      | some rest =>
        obtain ⟨g, hg, rfl⟩ := afterFirst_sound ha
        simp only [ha] at h
        exact .cons hg (ih.mp h)
    · intro h
      obtain ⟨g, r, hg, hr, rfl⟩ := follows_cons.mp h
      obtain ⟨x, hx, ha⟩ := afterFirst_complete p r hg
      simp only [ha]
      exact ih.mpr (hr.prepend hx)

theorem matchesHere_cons {p t : Text} {ps : List Text} :
    matchesHere (p :: ps) t = true ↔ ∃ r, Follows ps r ∧ t = p ++ r := by
  unfold matchesHere
  cases hp : p.isPrefixOf? t with
  | none =>
    simp only [hp, Bool.false_eq_true, false_iff, not_exists, not_and]
    rintro r - rfl
    exact isPrefixOf?_eq_none.mp hp (List.prefix_append p r)
  | some s =>
    obtain rfl := isPrefixOf?_eq_some.mp hp
    simp [hp, follow_iff]

theorem matchesHere_pieces {w t : Text} :
    matchesHere (pieces w) t = true ↔ ∃ m, Fits (w.map tokenOf) m ∧ m <+: t := by
  induction w generalizing t with
  | nil => exact ⟨fun _ => ⟨[], .nil, List.nil_prefix⟩, fun _ => rfl⟩
  | cons c w ih =>
    obtain ⟨p, ps, hw⟩ := exists_pieces w
    simp only [hw, matchesHere_cons] at ih
    by_cases hc : c = '*'
    · subst hc
      rw [pieces_star, hw, matchesHere_cons]
      change (∃ r, Follows (p :: ps) r ∧ t = [] ++ r) ↔ ∃ m, Fits (.run :: w.map tokenOf) m ∧ m <+: t
      simp only [follows_cons, fits_run]
      constructor
      · rintro ⟨_, ⟨g, r, hg, h, rfl⟩, rfl⟩
        obtain ⟨m, hm, hpre⟩ := ih.mp ⟨r, h, rfl⟩
        exact ⟨g ++ m, ⟨g, m, hg, hm, rfl⟩, by simpa using hpre⟩
      · rintro ⟨_, ⟨g, m, hg, hm, rfl⟩, s, rfl⟩
        obtain ⟨r, h, hr⟩ := ih.mpr ⟨m, hm, s, rfl⟩
        exact ⟨_, ⟨g, r, hg, h, rfl⟩, by simp [hr]⟩
    · rw [pieces_char hc hw, matchesHere_cons]
      have ht : (c :: w).map tokenOf = .char c :: w.map tokenOf := by simp [tokenOf, hc]
      simp only [ht, fits_char]
      constructor
      · rintro ⟨r, h, rfl⟩
        obtain ⟨m, hm, hpre⟩ := ih.mp ⟨r, h, rfl⟩
        exact ⟨c :: m, ⟨m, hm, rfl⟩, by simpa using hpre⟩
      · rintro ⟨_, ⟨m, hm, rfl⟩, s, rfl⟩
        obtain ⟨r, h, hr⟩ := ih.mpr ⟨m, hm, s, rfl⟩
        exact ⟨r, h, by simp [hr]⟩

theorem matchesFrom_iff {ps : List Text} {t : Text} :
    matchesFrom ps t = true ↔ ∃ s, s <:+ t ∧ matchesHere ps s = true := by
  induction t with
  | nil => simp [matchesFrom]
  | cons c t ih =>
    simp only [matchesFrom, Bool.or_eq_true, ih, List.suffix_cons_iff]
    constructor
    · rintro (h | ⟨s, hs, h⟩)
      · exact ⟨_, Or.inl rfl, h⟩
      · exact ⟨s, Or.inr hs, h⟩
    · rintro ⟨s, rfl | hs, h⟩
      · exact Or.inl h
      · exact Or.inr ⟨s, hs, h⟩

/-- Taking first occurrences finds a wildcard exactly where the search for its regular expression does. -/
theorem occursIn_iff_finds {w u : Text} : occursIn w u = true ↔ Finds (regex w) u := by
  rw [finds_regex, occursIn, matchesFrom_iff]
  constructor
  · rintro ⟨s, hs, h⟩
    obtain ⟨m, hm, hpre⟩ := matchesHere_pieces.mp h
    exact ⟨m, hm, List.infix_iff_prefix_suffix.mpr ⟨s, hpre, hs⟩⟩
  · rintro ⟨m, hm, hu⟩
    obtain ⟨s, hpre, hs⟩ := List.infix_iff_prefix_suffix.mp hu
    exact ⟨s, hs, matchesHere_pieces.mpr ⟨m, hm, hpre⟩⟩

theorem Finds.mono {r u v : Text} (h : Finds r u) (huv : u <:+: v) : Finds r v := by
  obtain ⟨ks, hk, m, hm, hu⟩ := h
  exact ⟨ks, hk, m, hm, hu.trans huv⟩

/-- `t` is `s` with some of its `free` characters dropped or exchanged. -/
inductive Retouched (free : Char → Prop) : Text → Text → Prop
  | nil : Retouched free [] []
  | keep {c : Char} {s t : Text} (h : Retouched free s t) : Retouched free (c :: s) (c :: t)
  | drop {c : Char} {s t : Text} (hc : free c) (h : Retouched free s t) : Retouched free (c :: s) t
  | swap {c d : Char} {s t : Text} (hc : free c) (hd : d ≠ '\n') (h : Retouched free s t) :
    Retouched free (c :: s) (d :: t)

namespace Retouched

variable {free : Char → Prop}

theorem refl (s : Text) : Retouched free s s := by
  induction s with
  | nil => exact .nil
  | cons c s ih => exact ih.keep

theorem append {a a' b b' : Text} (ha : Retouched free a a') (hb : Retouched free b b') :
    Retouched free (a ++ b) (a' ++ b') := by
  induction ha with
  | nil => exact hb
  | keep _ ih => exact ih.keep
  | drop hc _ ih => exact ih.drop hc
  | swap hc hd _ ih => exact ih.swap hc hd

theorem erase {a : Text} (ha : ∀ c ∈ a, free c) : Retouched free a [] := by
  induction a with
  | nil => exact .nil
  | cons c a ih => exact (ih fun d hd => ha d (by simp [hd])).drop (ha c (by simp))

theorem split {a b t : Text} (h : Retouched free (a ++ b) t) :
    ∃ a' b', t = a' ++ b' ∧ Retouched free a a' ∧ Retouched free b b' := by
  induction a generalizing t with
  | nil => exact ⟨[], t, rfl, .nil, h⟩
  | cons c a ih =>
    cases h with
    | keep h =>
      obtain ⟨a', b', rfl, ha, hb⟩ := ih h
      exact ⟨c :: a', b', rfl, ha.keep, hb⟩
    | drop hc h =>
      obtain ⟨a', b', rfl, ha, hb⟩ := ih h
      exact ⟨a', b', rfl, ha.drop hc, hb⟩
    | @swap _ d _ _ hc hd h =>
      obtain ⟨a', b', rfl, ha, hb⟩ := ih h
      exact ⟨d :: a', b', rfl, ha.swap hc hd, hb⟩

theorem oneLine {g g' : Text} (h : Retouched free g g') (hg : OneLine g) : OneLine g' := by
  induction h with
  | nil => exact hg
  | keep _ ih | drop _ _ ih | swap _ _ _ ih => grind [OneLine]

end Retouched

/-- A match passes over the characters that no token names, so it outlives their retouching. -/
theorem Fits.retouched {free : Char → Prop} {ks : List Token} {s t : Text} (h : Fits ks s)
    (hk : ∀ c, .char c ∈ ks → ¬ free c) (hr : Retouched free s t) : Fits ks t := by
  induction h generalizing t with
  | nil => cases hr; exact .nil
  | @char c ks s h ih =>
    have hc : ¬ free c := hk c (by simp)
    cases hr with
    | keep hr => exact .char (ih (fun d hd => hk d (by simp [hd])) hr)
    | drop hf _ | swap hf _ _ => exact absurd hf hc
  | run hg h ih =>
    obtain ⟨g', s', rfl, hr, hs⟩ := hr.split
    exact .run (hr.oneLine hg) (ih (fun d hd => hk d (by simp [hd])) hs)

theorem char_mem_map_tokenOf {c : Char} {w : Text} (h : .char c ∈ w.map tokenOf) : c ∈ w := by
  obtain ⟨d, hd, he⟩ := List.mem_map.mp h
  unfold tokenOf at he
  split_ifs at he
  cases he
  exact hd

theorem Finds.retouched {free : Char → Prop} {w s t : Text} (h : Finds (regex w) s)
    (hw : ∀ c ∈ w, ¬ free c) (hr : Retouched free s t) : Finds (regex w) t := by
  obtain ⟨m, hm, a, b, rfl⟩ := finds_regex.mp h
  obtain ⟨t', b', rfl, hr, -⟩ := hr.split
  obtain ⟨a', m', rfl, -, hr⟩ := hr.split
  exact finds_regex.mpr
    ⟨m', hm.retouched (fun c hc => hw c (char_mem_map_tokenOf hc)) hr, a', b', rfl⟩

end Blocklist.Wildcard
