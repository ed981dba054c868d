import Blocklist.Proofs.WildcardRegex
import Mathlib.Computability.Language

/-! A wildcard is matched as a glob. Each token of its regular expression has a language, and the expression is found in a text
if the product of these languages has a word there. That is so exactly if the pieces between the stars can be placed in the
text in order, each on the line where the one before it ends. The expression can be read back, so no two wildcards
share one. -/

namespace Blocklist.Wildcard

open Computability

def dot : Language Char := {m | ∃ c, c ≠ '\n' ∧ m = [c]}

def Token.language : Token → Language Char
  | .char c => {[c]}
  | .run => dot∗

/-- The search is not anchored: some part of `u` is a word of the expression. -/
def Matches (regex u : Text) : Prop :=
  ∃ ks, tokens? regex = some ks ∧ ∃ m ∈ (ks.map Token.language).prod, m <:+: u

theorem mem_kstar_dot {m : Text} : m ∈ dot∗ ↔ OneLine m := by
  rw [Language.mem_kstar]
  constructor
  · rintro ⟨ms, rfl, hms⟩ hmem
    obtain ⟨m, hm, hmem⟩ := List.mem_flatten.mp hmem
    obtain ⟨c, hc, rfl⟩ := hms m hm
    exact hc (List.mem_singleton.mp hmem).symm
  · intro hm
    refine ⟨m.map fun c => [c], by simp [← List.flatMap_def], ?_⟩
    intro x hx
    obtain ⟨c, hc, rfl⟩ := List.mem_map.mp hx
    refine ⟨c, ?_, rfl⟩
    rintro rfl
    exact hm hc

theorem fits_iff_mem_prod {ks : List Token} {m : Text} : Fits ks m ↔ m ∈ (ks.map Token.language).prod := by
  induction ks generalizing m with
  | nil =>
    rw [List.map_nil, List.prod_nil, Language.mem_one]
    constructor
    · rintro ⟨⟩
      rfl
    · rintro rfl
      exact .nil
  | cons k ks ih =>
    rw [List.map_cons, List.prod_cons, Language.mem_mul]
    cases k with
    | char c =>
      rw [fits_char]
      constructor
      · rintro ⟨n, hn, rfl⟩
        exact ⟨[c], rfl, n, ih.mp hn, rfl⟩
      · rintro ⟨_, rfl, n, hn, rfl⟩
        exact ⟨n, ih.mpr hn, rfl⟩
    | run =>
      rw [fits_run]
      constructor
      · rintro ⟨g, n, hg, hn, rfl⟩
        exact ⟨g, mem_kstar_dot.mpr hg, n, ih.mp hn, rfl⟩
      · rintro ⟨g, hg, n, hn, rfl⟩
        exact ⟨g, n, mem_kstar_dot.mp hg, ih.mpr hn, rfl⟩

theorem finds_iff_matches {r u : Text} : Finds r u ↔ Matches r u := by
  simp only [Finds, Matches, fits_iff_mem_prod]

def StandsAt (p u : Text) (i : Nat) : Prop := i ≤ u.length ∧ p <+: u.drop i

theorem standsAt_append (a p r : Text) : StandsAt p (a ++ p ++ r) a.length := by
  simp [StandsAt]

theorem StandsAt.drop_eq {p u : Text} {i : Nat} (h : StandsAt p u i) : u.drop i = p ++ u.drop (i + p.length) := by
  obtain ⟨-, r, hr⟩ := h
  rw [← List.drop_drop, ← hr, List.drop_left]

/-- Where the pieces stand in a text: in order and without overlap, with no line feed between one and the next. -/
structure Placed (ps : List Text) (u : Text) (start : Nat → Nat) : Prop where
  stands : ∀ i p, ps[i]? = some p → StandsAt p u (start i)
  ordered : ∀ i p, ps[i]? = some p → i + 1 < ps.length → start i + p.length ≤ start (i + 1)
  oneLine : ∀ i p, ps[i]? = some p → i + 1 < ps.length →
    ∀ k, start i + p.length ≤ k → k < start (i + 1) → u[k]? ≠ some '\n'

namespace Placed

variable {p q u : Text} {ps : List Text} {start : Nat → Nat}

theorem tail (h : Placed (p :: ps) u start) : Placed ps u fun i => start (i + 1) := by
  refine ⟨fun i q hq => h.stands (i + 1) q hq, fun i q hq hi => ?_, fun i q hq hi => ?_⟩
  · exact h.ordered (i + 1) q hq (by simpa using hi)
  · exact h.oneLine (i + 1) q hq (by simpa using hi)

theorem single {i : Nat} (hp : StandsAt p u i) : Placed [p] u fun _ => i := by
  refine ⟨fun k q hq => ?_, fun k q hq hk => ?_, fun k q hq hk => ?_⟩
  · obtain rfl := List.mem_singleton.mp (List.mem_of_getElem? hq)
    exact hp
  · simp at hk
  · simp at hk

theorem cons {i : Nat} (hp : StandsAt p u i) (hle : i + p.length ≤ start 0)
    (hline : ∀ k, i + p.length ≤ k → k < start 0 → u[k]? ≠ some '\n') (h : Placed (q :: ps) u start) :
    Placed (p :: q :: ps) u fun | 0 => i | k + 1 => start k := by
  refine ⟨fun k x hx => ?_, fun k x hx hk => ?_, fun k x hx hk => ?_⟩
  · cases k with
    | zero =>
      cases hx
      exact hp
    | succ k => exact h.stands k x hx
  · cases k with
    | zero =>
      cases hx
      exact hle
    | succ k => exact h.ordered k x hx (by simpa using hk)
  · cases k with
    | zero =>
      cases hx
      exact hline
    | succ k => exact h.oneLine k x hx (by simpa using hk)

/-- Behind the first piece the others follow. -/
theorem follows (h : Placed (p :: ps) u start) : Follows ps (u.drop (start 0 + p.length)) := by
  induction ps generalizing p start with
  | nil => exact .nil _
  | cons q ps ih =>
    -- `n` characters stand between this piece and the next
    obtain ⟨n, hn⟩ : ∃ n, start 1 = start 0 + p.length + n := Nat.exists_eq_add_of_le (h.ordered 0 p rfl (by simp))
    have hgap : OneLine ((u.drop (start 0 + p.length)).take n) := by
      intro hmem
      obtain ⟨k, hk, hget⟩ := List.mem_take_iff_getElem.mp hmem
      refine h.oneLine 0 p rfl (by simp) (start 0 + p.length + k) (by omega) (by rw [Nat.zero_add]; omega) ?_
      rw [← hget, List.getElem_drop]
      exact List.getElem?_eq_getElem _
    have hsplit := List.take_append_drop n (u.drop (start 0 + p.length))
    rw [List.drop_drop, ← hn, (h.stands 1 q rfl).drop_eq, ← List.append_assoc] at hsplit
    rw [← hsplit]
    exact .cons hgap (ih h.tail)

end Placed

theorem Follows.exists_placed {a p r : Text} {ps : List Text} (h : Follows ps r) :
    ∃ start, start 0 = a.length ∧ Placed (p :: ps) (a ++ p ++ r) start := by
  induction ps generalizing a p r with
  | nil => exact ⟨_, rfl, .single (standsAt_append a p r)⟩
  | cons q ps ih =>
    obtain ⟨g, s, hg, hs, rfl⟩ := follows_cons.mp h
    -- for the next piece, the text in front is longer by this piece and the gap behind it
    obtain ⟨start, hstart, hplaced⟩ := ih (a := a ++ p ++ g) (p := q) hs
    have htext : a ++ p ++ g ++ q ++ s = a ++ p ++ (g ++ q ++ s) := by simp only [List.append_assoc]
    have hline (k : Nat) (hk : a.length + p.length ≤ k) (hlt : k < start 0) :
        (a ++ p ++ (g ++ q ++ s))[k]? ≠ some '\n' := by
      rw [hstart] at hlt
      rw [← List.length_append] at hk
      rw [← htext, List.append_assoc, List.getElem?_append_left hlt, List.getElem?_append_right hk]
      exact fun hfeed => hg (List.mem_of_getElem? hfeed)
    rw [htext] at hplaced
    exact ⟨_, rfl, .cons (standsAt_append a p _) (by simp [hstart]) hline hplaced⟩

theorem occursIn_iff_placed {w u : Text} : occursIn w u = true ↔ ∃ start, Placed (pieces w) u start := by
  obtain ⟨p, ps, hw⟩ := exists_pieces w
  rw [occursIn, matchesFrom_iff, hw]
  simp only [matchesHere_cons]
  constructor
  · rintro ⟨_, ⟨a, rfl⟩, r, hr, rfl⟩
    obtain ⟨start, -, h⟩ := hr.exists_placed (a := a) (p := p)
    rw [List.append_assoc] at h
    exact ⟨start, h⟩
  · rintro ⟨start, h⟩
    exact ⟨u.drop (start 0), List.drop_suffix _ _, _, h.follows, (h.stands 0 p rfl).drop_eq⟩

def Token.glyph : Token → Char
  | .char c => c
  | .run => '*'

theorem glyph_tokenOf (c : Char) : (tokenOf c).glyph = c := by
  unfold tokenOf
  split_ifs with h
  · exact h.symm
  · rfl

theorem map_glyph_tokenOf (w : Text) : (w.map tokenOf).map Token.glyph = w := by
  rw [List.map_map]
  exact List.map_id'' glyph_tokenOf w

theorem regex_injective : Function.Injective regex := by
  intro v w h
  have htokens := congrArg tokens? h
  rw [tokens?_regex, tokens?_regex, Option.some.injEq] at htokens
  rw [← map_glyph_tokenOf v, htokens, map_glyph_tokenOf]

/-- The regular expression of a wildcard matches `u`, and the wildcard is said to occur in `u`, exactly if the pieces have their
places there. The general reader finds nothing in the expression but characters and repeated dots; read token by token
it is the wildcard again, so different wildcards have different expressions. -/
theorem matches_regex_iff_placed (w u : Text) :
    ((Matches (regex w) u ↔ ∃ start, Placed (pieces w) u start) ∧ (occursIn w u = true ↔ Matches (regex w) u)) ∧
    Regex.read (regex w) = .ok (.ofItems (w.map Regex.wildcardTree)) ∧
    (tokens? (regex w) = some (w.map tokenOf) ∧ (w.map tokenOf).map Token.glyph = w) ∧ Function.Injective regex := by
  have hoccurs : occursIn w u = true ↔ Matches (regex w) u := occursIn_iff_finds.trans finds_iff_matches
  exact ⟨⟨hoccurs.symm.trans occursIn_iff_placed, hoccurs⟩, Regex.read_regex w,
    ⟨tokens?_regex w, map_glyph_tokenOf w⟩, regex_injective⟩

end Blocklist.Wildcard
