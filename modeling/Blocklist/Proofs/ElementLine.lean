import Blocklist.Proofs.Hostname
import Blocklist.Proofs.Sets
import Blocklist.Regex.Admissible
import Blocklist.Rule.Line

/-! Element rules as people write them: page domains between commas or bars, a mark, a selector. The line is read
as written exactly if no mark that is looked for earlier occurs from the written mark on. -/

namespace Blocklist

/-- A page domain before a mark; a tilde before it leaves the domain out. -/
structure PageEntry where
  host : Text
  isHost : isHostname host = true
  excluded : Bool

def PageEntry.text (e : PageEntry) : Text := if e.excluded then '~' :: e.host else e.host

inductive Joined : List PageEntry → Text → Prop
  | nil : Joined [] []
  | single (e : PageEntry) : Joined [e] e.text
  | cons {e e' : PageEntry} {es : List PageEntry} {t : Text} {sep : Char} (hs : sep ∈ [',', '|'])
    (h : Joined (e' :: es) t) : Joined (e :: e' :: es) (e.text ++ sep :: t)

/-- Something between blanks: not empty, and with no blank at either end. -/
structure IsSelector (s : Text) : Prop where
  nonempty : s ≠ []
  head : ∀ c ∈ s.head?, isBlank c = false
  last : ∀ c ∈ s.getLast?, isBlank c = false

inductive Mark where
  | hide
  | unhide
  | procedural
deriving DecidableEq

namespace Mark

def text : Mark → Text
  | hide => "##".toList
  | unhide => "#@#".toList
  | procedural => "#?#".toList

def action : Mark → Action
  | hide | procedural => .hide
  | unhide => .unhide

def body : Mark → Target → Body
  | hide, t | unhide, t => .cosmetic t
  | procedural, t => .procedural t

def earlier : Mark → List Mark
  | hide => []
  | unhide => [hide]
  | procedural => [hide, unhide]

end Mark

structure Target.Says (t : Target) (es : List PageEntry) (s : Text) : Prop where
  selector : t.selector = s
  included : ∀ d, d ∈ t.pages.included ↔ ∃ e ∈ es, e.excluded = false ∧ e.host.lower = d
  excluded : ∀ d, d ∈ t.pages.excluded ↔ ∃ e ∈ es, e.excluded = true ∧ e.host.lower = d

/-- What the readers ask of a character: those of host names and the tilde pass. -/
def isEntryChar (c : Char) : Bool :=
  !isBlank c && !Target.isSeparator c && c != '#' && c != '!' && c != '['

theorem isEntryChar_of_isHostChar {c : Char} (h : isHostChar c = true) :
    isEntryChar c = true ∧ isEntryChar c.toLower = true ∧ c.toLower ≠ '~' := by
  have hall : ∀ n < 128, isHostChar (Char.ofNat n) = true → isEntryChar (Char.ofNat n) = true ∧
      isEntryChar (Char.ofNat n).toLower = true ∧ (Char.ofNat n).toLower ≠ '~' := by decide
  have := hall c.toNat (isHostChar_lt h)
  rw [Char.ofNat_toNat] at this
  exact this h

namespace PageEntry

variable (e : PageEntry)

theorem isHostChar_of_mem {c : Char} (h : c ∈ e.host) : isHostChar c = true :=
  (isHostname_iff.mp e.isHost).2.2.2.2 c h

theorem host_ne_nil : e.host ≠ [] := (isHostname_iff.mp e.isHost).1

theorem lower_text : e.text.lower = if e.excluded then '~' :: e.host.lower else e.host.lower := by
  unfold text
  split_ifs <;> rfl

theorem mem_text {c : Char} (h : c ∈ e.text) : c = '~' ∨ isHostChar c = true := by
  unfold text at h
  split_ifs at h
  · exact (List.mem_cons.mp h).imp_right e.isHostChar_of_mem
  · exact Or.inr (e.isHostChar_of_mem h)

theorem isEntryChar_of_mem {c : Char} (h : c ∈ e.text) : isEntryChar c = true := by
  rcases e.mem_text h with rfl | h
  · decide
  · exact (isEntryChar_of_isHostChar h).1

theorem isEntryChar_of_mem_lower {c : Char} (h : c ∈ e.text.lower) : isEntryChar c = true := by
  obtain ⟨d, hd, rfl⟩ := List.mem_map.mp h
  rcases e.mem_text hd with rfl | hd
  · decide
  · exact (isEntryChar_of_isHostChar hd).2.1

theorem text_ne_nil : e.text ≠ [] := by
  unfold text
  split_ifs
  · simp
  · exact e.host_ne_nil

end PageEntry

theorem isEntryChar_iff {c : Char} : isEntryChar c = true ↔
    isBlank c = false ∧ Target.isSeparator c = false ∧ c ≠ '#' ∧ c ≠ '!' ∧ c ≠ '[' := by
  simp [isEntryChar, and_assoc]

theorem splitWhen_joined {es : List PageEntry} {t : Text} (h : Joined es t) (hne : es ≠ []) :
    Text.splitWhen Target.isSeparator t.lower = es.map (·.text.lower) := by
  have hchars (e : PageEntry) : ∀ c ∈ e.text.lower, Target.isSeparator c = false :=
    fun c hc => (isEntryChar_iff.mp (e.isEntryChar_of_mem_lower hc)).2.1
  induction h with
  | nil => exact absurd rfl hne
  | single e => simpa using Text.splitWhen_append (t := []) (hchars e) rfl
  | @cons e e' es t sep hs h ih =>
    have hsep : sep.toLower = sep ∧ Target.isSeparator sep = true := by
      rcases List.mem_pair.mp hs with rfl | rfl <;> decide
    have ht : Text.lower (e.text ++ sep :: t) = e.text.lower ++ sep :: Text.lower t := by
      simp [Text.lower, hsep.1]
    have hsplit : Text.splitWhen Target.isSeparator (sep :: Text.lower t) =
        [] :: Text.splitWhen Target.isSeparator (Text.lower t) := by
      simp [Text.splitWhen, hsep.2]
    rw [ht, Text.splitWhen_append (hchars e) hsplit, ih (by simp)]
    simp

theorem trim_lower_text (e : PageEntry) : Text.trim e.text.lower = e.text.lower :=
  Text.trim_eq_self
    (fun _ hc => (isEntryChar_iff.mp (e.isEntryChar_of_mem_lower (List.mem_of_mem_head? hc))).1)
    (fun _ hc => (isEntryChar_iff.mp (e.isEntryChar_of_mem_lower (List.mem_of_getLast? hc))).1)

theorem entries_joined {es : List PageEntry} {t : Text} (h : Joined es t) :
    Scope.entries Target.isSeparator t.lower = es.map (·.text.lower) := by
  cases es with
  | nil => cases h; rfl
  | cons e es =>
    rw [Scope.entries, splitWhen_joined h (by simp), List.map_map, List.filter_eq_self.mpr]
    · exact List.map_congr_left fun e _ => trim_lower_text e
    · intro x hx
      obtain ⟨e, -, rfl⟩ := List.mem_map.mp hx
      rw [Function.comp_apply, trim_lower_text, decide_eq_true_eq]
      simpa [Text.lower] using e.text_ne_nil

/-- What one entry adds to a scope. -/
theorem add_lower_text (s : Scope) (e : PageEntry) : s.add e.text.lower =
    if e.excluded then { s with excluded := s.excluded.insert e.host.lower }
    else { s with included := s.included.insert e.host.lower } := by
  obtain ⟨c, r, hcr⟩ := List.exists_cons_of_ne_nil e.host_ne_nil
  have hlow : e.host.lower = c.toLower :: Text.lower r := by rw [hcr]; rfl
  have hc : c.toLower ≠ '~' := (isEntryChar_of_isHostChar (e.isHostChar_of_mem (by simp [hcr]))).2.2
  rw [PageEntry.lower_text, hlow]
  split_ifs
  · rfl
  · unfold Scope.add
    split
    · simp_all
    · simp_all
    · rfl

def Scope.side (s : Scope) : Bool → NameSet
  | true => s.excluded
  | false => s.included

theorem mem_side_add {s : Scope} {e : PageEntry} {b : Bool} {d : Text} :
    d ∈ (s.add e.text.lower).side b ↔ d ∈ s.side b ∨ (e.excluded = b ∧ e.host.lower = d) := by
  rw [add_lower_text]
  cases he : e.excluded <;> cases b <;> simp [Scope.side, NameSet.mem_insert, or_comm, eq_comm]

theorem mem_side_foldl_add (es : List PageEntry) (s : Scope) (b : Bool) (d : Text) :
    d ∈ ((es.map (·.text.lower)).foldl Scope.add s).side b ↔
      d ∈ s.side b ∨ ∃ e ∈ es, e.excluded = b ∧ e.host.lower = d := by
  induction es generalizing s with
  | nil => simp
  | cons e es ih =>
    rw [List.map_cons, List.foldl_cons, ih, mem_side_add, or_assoc]
    simp only [List.mem_cons, exists_eq_or_imp]

theorem read_joined {es : List PageEntry} {t s : Text} (mark : Text) (h : Joined es t) (hs : IsSelector s) :
    ∃ g, Target.read mark t s = .ok g ∧ g.Says es s := by
  have htrim : Text.trim s = s := Text.trim_eq_self hs.head hs.last
  have hside (b : Bool) (d : Text) : d ∈ (Scope.addAll {} Target.isSeparator t).side b ↔
      ∃ e ∈ es, e.excluded = b ∧ e.host.lower = d := by
    have hempty : d ∉ ({} : Scope).side b := by cases b <;> exact List.not_mem_nil
    rw [Scope.addAll, entries_joined h, mem_side_foldl_add]
    exact or_iff_right hempty
  refine ⟨⟨s, Scope.addAll {} Target.isSeparator t⟩, ?_, rfl, hside false, hside true⟩
  simp [Target.read, htrim, hs.nonempty]

theorem hash_not_mem_joined {es : List PageEntry} {t : Text} (h : Joined es t) : '#' ∉ t := by
  have htext (e : PageEntry) : '#' ∉ e.text :=
    fun hc => (isEntryChar_iff.mp (e.isEntryChar_of_mem hc)).2.2.1 rfl
  induction h with
  | nil => simp
  | single e => exact htext e
  | @cons e e' es t sep hs h ih =>
    have hsep : '#' ≠ sep := by
      rcases List.mem_pair.mp hs with rfl | rfl <;> decide
    simp [htext e, hsep, ih]

theorem isEntryChar_head_joined {es : List PageEntry} {t : Text} (h : Joined es t) :
    ∀ c ∈ t.head?, isEntryChar c = true := by
  intro c hc
  cases h with
  | nil => cases hc
  | single e => exact e.isEntryChar_of_mem (List.mem_of_mem_head? hc)
  | @cons e =>
    rw [List.head?_append_of_ne_nil _ e.text_ne_nil] at hc
    exact e.isEntryChar_of_mem (List.mem_of_mem_head? hc)

namespace Mark

theorem exists_text (m : Mark) : ∃ r, m.text = '#' :: r := by
  cases m <;> exact ⟨_, rfl⟩

theorem eq_of_action_body {m k : Mark} {g g' : Target} (ha : m.action = k.action) (hb : m.body g = k.body g') :
    m = k := by
  cases m <;> cases k <;> simp_all [action, body]

/-- Of the earlier marks that occur, the first to be looked for. -/
theorem exists_first {m : Mark} {t : Text} (h : ∃ k ∈ m.earlier, k.text <:+: t) :
    ∃ k ∈ m.earlier, k.text <:+: t ∧ ∀ j ∈ k.earlier, ¬ j.text <:+: t := by
  obtain ⟨k, hk, ho⟩ := h
  by_cases hh : hide.text <:+: t
  · refine ⟨hide, ?_, hh, by simp [earlier]⟩
    cases m <;> simp_all [earlier]
  · refine ⟨k, hk, ho, fun j hj => ?_⟩
    have : k ≠ procedural := by rintro rfl; cases m <;> simp [earlier] at hk
    cases k <;> simp_all [earlier]

end Mark

structure IsContent (t : Text) : Prop where
  trim : Text.trim t = t
  nonempty : t ≠ []
  noComment : Line.isComment t = false

theorem ofText_of_cut {t pages selector : Text} {m : Mark} (h : IsContent t)
    (he : ∀ k ∈ m.earlier, ¬ k.text <:+: t) (hc : Text.cut m.text t = some (pages, selector)) :
    Line.ofText t = .element m.text pages selector := by
  have hnone {k : Mark} (hk : k ∈ m.earlier) : Text.cut k.text t = none := Text.cut_eq_none.mpr (he k hk)
  unfold Line.ofText
  simp only [h.trim, h.nonempty, h.noComment, false_or, Bool.false_eq_true, if_false]
  cases m with
  | hide =>
    change Text.cut Line.hideMark t = _ at hc
    simp only [hc]
    rfl
  | unhide =>
    have h1 : Text.cut Line.hideMark t = none := @hnone .hide (by simp [Mark.earlier])
    change Text.cut Line.unhideMark t = _ at hc
    simp only [h1, hc]
    rfl
  | procedural =>
    have h1 : Text.cut Line.hideMark t = none := @hnone .hide (by simp [Mark.earlier])
    have h2 : Text.cut Line.unhideMark t = none := @hnone .unhide (by simp [Mark.earlier])
    change Text.cut Line.proceduralMark t = _ at hc
    simp only [h1, h2, hc]
    rfl

theorem rule?_element [Regex.Library] (source : Text) (number : Nat) (m : Mark) (pages selector : Text) :
    (Line.element m.text pages selector).rule? source number =
      (Target.read m.text pages selector).map fun g => some ⟨m.action, m.body g, Priority.base, source, number⟩ := by
  cases m <;> rfl

theorem isContent_written {es : List PageEntry} {t s : Text} (m : Mark) (h : Joined es t) (hs : IsSelector s) :
    IsContent (t ++ m.text ++ s) := by
  obtain ⟨r, hr⟩ := m.exists_text
  have hhead : ∀ c ∈ (t ++ m.text ++ s).head?, isBlank c = false ∧ c ≠ '!' ∧ c ≠ '[' := by
    intro c hc
    cases t with
    | nil =>
      obtain rfl : '#' = c := by simpa [hr] using hc
      decide
    | cons d t =>
      obtain rfl : d = c := by simpa using hc
      have := isEntryChar_iff.mp (isEntryChar_head_joined h d rfl)
      exact ⟨this.1, this.2.2.2⟩
  refine ⟨Text.trim_eq_self (fun c hc => (hhead c hc).1) (fun c hc => hs.last c ?_), by simp [hr], ?_⟩
  · rwa [List.getLast?_append_of_ne_nil _ hs.nonempty] at hc
  · simp only [Line.isComment, Bool.or_eq_false_iff, beq_eq_false_iff_ne]
    exact ⟨fun hc => (hhead _ hc).2.1 rfl, fun hc => (hhead _ hc).2.2 rfl⟩

theorem text_infix_written {es : List PageEntry} {t s : Text} (m k : Mark) (h : Joined es t) :
    k.text <:+: t ++ m.text ++ s ↔ k.text <:+: m.text ++ s := by
  obtain ⟨r, hr⟩ := k.exists_text
  rw [List.append_assoc, hr, Text.infix_append_of_not_mem (hash_not_mem_joined h)]

theorem cut_written {es : List PageEntry} {t : Text} (m : Mark) (s : Text) (h : Joined es t) :
    Text.cut m.text (t ++ m.text ++ s) = some (t, s) := by
  obtain ⟨r, hr⟩ := m.exists_text
  rw [hr]
  exact Text.cut_append s (hash_not_mem_joined h)

/-- The line is read with the action, the kind, the pages and the selector it is written with exactly if none of
the marks that are looked for earlier occurs in what follows the pages. -/
theorem ofLine?_written_iff [Regex.Library] (source : Text) (number : Nat) (m : Mark) {es : List PageEntry} {t s : Text}
    (h : Joined es t) (hs : IsSelector s) :
    (∃ r g, Rule.ofLine? source number (t ++ m.text ++ s) = .ok (some r) ∧ r.action = m.action ∧
      r.body = m.body g ∧ g.Says es s) ↔ ∀ k ∈ m.earlier, ¬ k.text <:+: m.text ++ s := by
  have hcont := isContent_written m h hs
  constructor
  · rintro ⟨r, g, hread, ha, hb, -⟩
    by_contra hex
    push Not at hex
    obtain ⟨k, hk, hocc, hfirst⟩ := Mark.exists_first (t := t ++ m.text ++ s)
      (by simpa only [text_infix_written m _ h] using hex)
    obtain ⟨⟨pages, selector⟩, hcut⟩ := Option.ne_none_iff_exists'.mp (mt Text.cut_eq_none.mp (not_not.mpr hocc))
    rw [Rule.ofLine?, ofText_of_cut hcont hfirst hcut, rule?_element] at hread
    cases hg : Target.read k.text pages selector with
    | error => simp [hg, Except.map] at hread
    | ok g' =>
      simp only [hg, Except.map, Except.ok.injEq, Option.some.injEq] at hread
      subst hread
      obtain rfl := Mark.eq_of_action_body ha hb
      cases k <;> simp [Mark.earlier] at hk
  · intro he
    obtain ⟨g, hg, hsays⟩ := read_joined m.text h hs
    have hline := ofText_of_cut hcont (by simpa only [text_infix_written m _ h] using he) (cut_written m s h)
    refine ⟨⟨m.action, m.body g, Priority.base, source, number⟩, g, ?_, rfl, rfl, hsays⟩
    rw [Rule.ofLine?, hline, rule?_element, hg]
    rfl

instance (s : Text) : Decidable (IsSelector s) :=
  decidable_of_iff (s ≠ [] ∧ s.head?.all (!isBlank ·) = true ∧ s.getLast?.all (!isBlank ·) = true) <| by
    simp only [Option.all_eq_true, Bool.not_eq_true']
    exact ⟨fun h => ⟨h.1, h.2.1, h.2.2⟩, fun h => ⟨h.nonempty, h.head, h.last⟩⟩

def shopEntry : PageEntry := ⟨"Shop.example".toList, by decide, false⟩

def blogEntry : PageEntry := ⟨"blog.example".toList, by decide, true⟩

theorem ofLine?_shop_blog :
    Joined [shopEntry, blogEntry] "Shop.example|~blog.example".toList ∧ IsSelector "a[href=#ad]:has(b)".toList ∧
    ∃ r g, Rule.ofLine? [] 1 "Shop.example|~blog.example#?#a[href=#ad]:has(b)".toList = .ok (some r) ∧
      r.action = .hide ∧ r.body = .procedural g ∧ g.Says [shopEntry, blogEntry] "a[href=#ad]:has(b)".toList := by
  have hj : Joined [shopEntry, blogEntry] "Shop.example|~blog.example".toList :=
    @Joined.cons shopEntry blogEntry [] _ '|' (by decide) (.single blogEntry)
  have hs : IsSelector "a[href=#ad]:has(b)".toList := by decide
  exact ⟨hj, hs, (ofLine?_written_iff [] 1 .procedural hj hs).mpr (by decide)⟩

/-- An exception for an element id is read as a rule that hides, on pages of a domain that is no host name. -/
theorem ofLine?_unhide_id :
    Joined [shopEntry] "Shop.example".toList ∧ IsSelector "#banner".toList ∧
    ∃ r, Rule.ofLine? [] 1 ("Shop.example".toList ++ Mark.unhide.text ++ "#banner".toList) = .ok (some r) ∧
      r.action ≠ Mark.unhide.action ∧
      r.body = .cosmetic ⟨"banner".toList, ⟨.ofList ["shop.example#@".toList], .empty⟩⟩ :=
  ⟨.single shopEntry, by decide, _, rfl, by decide, rfl⟩

end Blocklist
