import Blocklist.Proofs.ElementLine
import Blocklist.Proofs.Options.Written

/-! Network rules written out and read back. A rule that was read from a line is written as one line in which
everything stands once: `@@` for an exception, the pattern, and behind a dollar sign the options. Reading this line
gives the rule. -/

namespace Blocklist

namespace Pattern

theorem ofText_anchorText (h : Text) : ofText (anchorText h) = .hostAnchor h.lower := by
  have hbars : ['|', '|'].isPrefixOf? (anchorText h) = some (h ++ ['^']) :=
    isPrefixOf?_eq_some.mpr (List.append_assoc _ _ _)
  have hcaret : ['^'].isSuffixOf? (h ++ ['^']) = some h := isSuffixOf?_eq_some.mpr rfl
  simp only [ofText, hbars, hcaret]

theorem ofText_hostStart {h : Text} (hh : ¬ ['^'] <:+ h) : ofText (['|', '|'] ++ h) = .hostStart h.lower := by
  have hbars : ['|', '|'].isPrefixOf? (['|', '|'] ++ h) = some h := isPrefixOf?_eq_some.mpr rfl
  cases hcaret : ['^'].isSuffixOf? h with
  | none => simp only [ofText, hbars, hcaret]
  | some r => exact absurd ⟨r, (isSuffixOf?_eq_some.mp hcaret).symm⟩ hh

/-- A pattern is written as it was read, unless it names a host. -/
theorem ofText_cases (t : Text) : (∃ h, t = anchorText h) ∨ (∃ h, t = ['|', '|'] ++ h ∧ ¬ ['^'] <:+ h) ∨
    (ofText t).texts = [t] := by
  unfold ofText
  split
  · rename_i rest hbars
    have ht := isPrefixOf?_eq_some.mp hbars
    split
    · rename_i h hcaret
      left
      exact ⟨h, by rw [ht, isSuffixOf?_eq_some.mp hcaret, anchorText, List.append_assoc]⟩
    · rename_i hcaret
      right; left
      refine ⟨rest, ht, fun ⟨h, hh⟩ => ?_⟩
      rw [isSuffixOf?_eq_some.mpr hh.symm] at hcaret
      cases hcaret
  · right; right
    split
    · rename_i hbar
      rw [isPrefixOf?_eq_some.mp hbar]
      rfl
    · split
      · rename_i hbar
        rw [isSuffixOf?_eq_some.mp hbar]
        rfl
      · unfold ofUnanchored
        split_ifs <;> rfl

theorem lower_anchorText (h : Text) : (anchorText h).lower = anchorText h.lower := by
  simp [anchorText, Text.lower]

/-- A pattern that was read has one written form, which is read as the same pattern. -/
theorem exists_texts_ofText (t : Text) : ∃ w, (ofText t).texts = [w] ∧ (w = t ∨ w = t.lower) ∧ ofText w = ofText t := by
  rcases ofText_cases t with ⟨h, rfl⟩ | ⟨h, rfl, hh⟩ | ht
  · refine ⟨anchorText h.lower, ?_, Or.inr (lower_anchorText h).symm, ?_⟩
    · rw [ofText_anchorText]
      rfl
    · rw [ofText_anchorText, ofText_anchorText, Text.lower_lower]
  · refine ⟨['|', '|'] ++ h.lower, ?_, Or.inr rfl, ?_⟩
    · rw [ofText_hostStart hh]
      rfl
    · have hlower : ¬ ['^'] <:+ h.lower := fun hcaret => hh (Text.suffix_of_suffix_lower (by decide) hcaret)
      rw [ofText_hostStart hlower, ofText_hostStart hh, Text.lower_lower]
  · exact ⟨t, ht, Or.inl rfl, rfl⟩

end Pattern

def Action.sign : Action → Text
  | .allow => ['@', '@']
  | .block | .hide | .unhide => []

namespace NetworkLine

def optionsText : Option Text → Text
  | none => []
  | some t => '$' :: t

def text (l : NetworkLine) : Text := l.action.sign ++ l.pattern ++ optionsText l.options

/-- Parts that are told from each other when they are put together. -/
structure IsSplit (l : NetworkLine) : Prop where
  dollar : '$' ∉ l.pattern
  action : l.action = .allow ∨ l.action = .block ∧ ¬ ['@', '@'] <+: l.pattern

theorem splitOptions_append {u : Text} (h : '$' ∉ u) (x : Option Text) :
    splitOptions (u ++ optionsText x) = (u, x) := by
  cases x with
  | none =>
    have hcut : Text.cut ['$'] u = none := Text.cut_eq_none.mpr (mt (List.singleton_infix_iff _ _).mp h)
    simp only [splitOptions, optionsText, List.append_nil, hcut]
  | some x =>
    have hcut : Text.cut ['$'] (u ++ '$' :: x) = some (u, x) := by simpa using Text.cut_append (m := []) x h
    simp only [splitOptions, optionsText, hcut]

theorem exists_options (t : Text) : ∃ u x, '$' ∉ u ∧ t = u ++ optionsText x := by
  by_cases h : '$' ∈ t
  · obtain ⟨u, x, rfl, hu⟩ := List.eq_append_cons_of_mem h
    exact ⟨u, some x, hu, rfl⟩
  · exact ⟨t, none, h, (List.append_nil t).symm⟩

/-- A line is split into those parts that are told from each other and give the line. -/
theorem ofText_eq_iff {t : Text} {l : NetworkLine} : ofText t = l ↔ l.IsSplit ∧ t = l.text := by
  constructor
  · rintro rfl
    cases hat : ['@', '@'].isPrefixOf? t with
    | some rest =>
      obtain ⟨u, x, hu, rfl⟩ := exists_options rest
      simp only [ofText, hat, splitOptions_append hu]
      exact ⟨⟨hu, Or.inl rfl⟩, (isPrefixOf?_eq_some.mp hat).trans (List.append_assoc _ _ _).symm⟩
    | none =>
      obtain ⟨u, x, hu, rfl⟩ := exists_options t
      simp only [ofText, hat, splitOptions_append hu]
      refine ⟨⟨hu, Or.inr ⟨rfl, fun hbegins => ?_⟩⟩, rfl⟩
      exact isPrefixOf?_eq_none.mp hat (hbegins.trans (List.prefix_append _ _))
  · rintro ⟨⟨hdollar, haction⟩, rfl⟩
    obtain ⟨a, u, x⟩ := l
    rcases haction with rfl | ⟨rfl, hat⟩
    · have hsign : ['@', '@'].isPrefixOf? (text ⟨.allow, u, x⟩) = some (u ++ optionsText x) :=
        isPrefixOf?_eq_some.mpr (List.append_assoc _ _ _)
      simp only [ofText, hsign, splitOptions_append hdollar]
    · have hsign : ['@', '@'].isPrefixOf? (u ++ optionsText x) = none := by
        -- the options cannot complete an `@@` that the pattern only begins, since a dollar sign stands between
        refine isPrefixOf?_eq_none.mpr fun hbegins => hat ?_
        cases x with
        | none => simpa [optionsText] using hbegins
        | some x => exact Text.prefix_of_prefix_append_cons (by decide) hbegins
      change ofText (u ++ optionsText x) = _
      simp only [ofText, hsign, splitOptions_append hdollar]

theorem readOptions_eq_ok_iff {l : NetworkLine} {o : Options} : l.readOptions = .ok o ↔
    l.options = none ∧ o = {} ∨ ∃ t, l.options = some t ∧ Text.trim t ≠ [] ∧ o = Options.read t := by
  unfold readOptions
  constructor
  · intro h
    split at h
    · rename_i hnone
      exact Or.inl ⟨hnone, (Except.ok.inj h).symm⟩
    · rename_i t hsome
      split_ifs at h with ht
      exact Or.inr ⟨t, hsome, ht, (Except.ok.inj h).symm⟩
  · rintro (⟨hnone, rfl⟩ | ⟨t, hsome, ht, rfl⟩)
    · rw [hnone]
    · rw [hsome]
      exact if_neg ht

theorem read_eq_ok_iff [Regex.Library] {l : NetworkLine} {p : Pattern} {o : Options} : l.read = .ok (p, o) ↔
    l.readOptions = .ok o ∧ l.pattern.trim ≠ [] ∧ checkPattern p = .ok () ∧ p = Pattern.ofText l.pattern.trim := by
  unfold read readPattern
  constructor
  · intro h
    split at h
    · cases h
    · rename_i o' ho
      simp only at h
      split_ifs at h with ht
      · cases h
      · cases hc : checkPattern (Pattern.ofText l.pattern.trim) with
        | error e =>
          rw [hc] at h
          cases h
        | ok u =>
          rw [hc] at h
          cases h
          exact ⟨ho, ht, hc, rfl⟩
  · rintro ⟨ho, ht, hc, rfl⟩
    simp only [ho, ht, hc, if_false]
    rfl

end NetworkLine

def Mark.Absent (t : Text) : Prop := ∀ m : Mark, ¬ m.text <:+: t

namespace Mark

theorem isLower_text (m : Mark) : m.text.any Char.isLower = false := by cases m <;> rfl

theorem Absent.of_infix {t u : Text} (h : Absent t) (hu : u <:+: t) : Absent u := fun m hm => h m (hm.trans hu)

theorem absent_iff_cut {t : Text} : Absent t ↔ Text.cut Line.hideMark t = none ∧
    Text.cut Line.unhideMark t = none ∧ Text.cut Line.proceduralMark t = none := by
  simp only [Text.cut_eq_none]
  constructor
  · intro h
    exact ⟨h hide, h unhide, h procedural⟩
  · rintro ⟨hhide, hunhide, hprocedural⟩ m
    cases m with
    | hide => exact hhide
    | unhide => exact hunhide
    | procedural => exact hprocedural

end Mark

namespace Line

/-- Network lines are what is left: no blank line, no comment, and no mark in it. -/
theorem ofText_eq_network_iff {line : Text} {l : NetworkLine} : ofText line = .network l ↔
    line.trim ≠ [] ∧ isComment line.trim = false ∧ Mark.Absent line.trim ∧ NetworkLine.ofText line.trim = l := by
  rw [Mark.absent_iff_cut]
  unfold ofText
  constructor
  · intro h
    simp only at h
    split_ifs at h with hsilent
    obtain ⟨hne, hcomment⟩ := not_or.mp hsilent
    split at h
    · cases h
    · rename_i hhide
      split at h
      · cases h
      · rename_i hunhide
        split at h
        · cases h
        · rename_i hprocedural
          exact ⟨hne, by simpa using hcomment, ⟨hhide, hunhide, hprocedural⟩, network.inj h⟩
  · rintro ⟨hne, hcomment, ⟨hhide, hunhide, hprocedural⟩, rfl⟩
    simp [hne, hcomment, hhide, hunhide, hprocedural]

/-- What a line is that gives a rule, and what the rule is made of. -/
theorem rule?_cases [Regex.Library] {source : Text} {number : Nat} {line : Line} {r : Rule}
    (h : line.rule? source number = .ok (some r)) :
    (∃ l p o, line = .network l ∧ l.read = .ok (p, o) ∧
      r = ⟨l.action, .network p o, Priority.ofNetwork l.action o, source, number⟩) ∨
    ∃ mark pages selector, line = .element mark pages selector ∧ selector.trim ≠ [] ∧
      r = ⟨elementAction mark, elementBody mark ⟨selector.trim, Scope.addAll {} Target.isSeparator pages⟩,
        Priority.base, source, number⟩ := by
  cases line with
  | silent => cases h
  | element mark pages selector =>
    rw [rule?, Target.read] at h
    split_ifs at h with hne
    · cases h
    · cases h
      exact Or.inr ⟨mark, pages, selector, rfl, hne, rfl⟩
  | network l =>
    rw [rule?] at h
    cases hr : l.read with
    | error e =>
      rw [hr] at h
      cases h
    | ok x =>
      rw [hr] at h
      cases h
      exact Or.inl ⟨l, x.1, x.2, rfl, hr, rfl⟩

theorem isComment_iff {t : Text} : isComment t = true ↔ ∃ c ∈ ['!', '['], [c] <+: t := by
  simp [isComment, List.singleton_prefix_iff_head?_eq_some]

theorem isComment_eq_false {t u : Text} (h : isComment t = false) (hu : ∀ c ∈ ['!', '['], [c] <+: u → [c] <+: t) :
    isComment u = false := by
  by_contra hcomment
  obtain ⟨c, hc, hbegins⟩ := isComment_iff.mp (by simpa using hcomment)
  have ht := isComment_iff.mpr ⟨c, hc, hu c hc hbegins⟩
  rw [h] at ht
  cases ht

end Line

namespace NetworkLine

/-- An action, a written pattern and options whose parts do not run into each other when they stand on one line. -/
structure Writable (a : Action) (t : Text) (o : Options) : Prop where
  trimmed : Text.IsTrimmed t
  dollar : '$' ∉ t
  absent : Mark.Absent t
  action : a = .allow ∨ a = .block ∧ ¬ ['@', '@'] <+: t ∧ Line.isComment t = false
  options : o.From fun e => IsDomainEntry e ∧ Mark.Absent e

theorem from_readOptions {l : NetworkLine} {o : Options} (h : l.readOptions = .ok o) :
    ∃ t, t <:+: optionsText l.options ∧ o.From (Options.Mentions t) := by
  rcases readOptions_eq_ok_iff.mp h with ⟨-, rfl⟩ | ⟨t, ht, -, rfl⟩
  · exact ⟨[], List.nil_infix, Options.from_default⟩
  · rw [ht]
    exact ⟨t, (List.suffix_cons _ _).isInfix, Options.from_read t⟩

/-- What was read can be written. -/
theorem writable_of_read [Regex.Library] {line : Text} {l : NetworkLine} {p : Pattern} {o : Options}
    (hl : Line.ofText line = .network l) (hr : l.read = .ok (p, o)) : Writable l.action l.pattern.trim o := by
  obtain ⟨-, hcomment, habsent, hparts⟩ := Line.ofText_eq_network_iff.mp hl
  obtain ⟨hsplit, htext⟩ := ofText_eq_iff.mp hparts
  obtain ⟨ho, hpattern, -, -⟩ := read_eq_ok_iff.mp hr
  have hhead := Text.isBlank_head?_trim line
  rw [htext] at hcomment habsent hhead
  have hin := Text.trim_infix l.pattern
  refine ⟨⟨hpattern, Text.trim_trim _⟩, fun hd => hsplit.dollar (hin.subset hd), ?_, ?_, ?_⟩
  · exact habsent.of_infix (hin.trans ⟨l.action.sign, optionsText l.options, rfl⟩)
  · -- behind `@@` a pattern may begin with anything, otherwise it begins the line
    rcases hsplit.action with ha | ⟨ha, hat⟩
    · exact Or.inl ha
    have hbegins : l.text = l.pattern ++ optionsText l.options := by
      rw [text, ha]
      rfl
    rw [hbegins] at hcomment hhead
    have htrim : l.pattern.trim <+: l.pattern := by
      apply Text.trim_isPrefix
      intro c hc
      apply hhead
      rw [List.head?_append, hc]
      rfl
    refine Or.inr ⟨ha, fun h => hat (h.trans htrim), Line.isComment_eq_false hcomment fun c _ hc => ?_⟩
    exact hc.trans (htrim.trans (List.prefix_append _ _))
  · obtain ⟨t, ht, hfrom⟩ := from_readOptions ho
    have htin : t <:+: l.text := ht.trans (List.suffix_append _ _).isInfix
    refine hfrom.mono fun e he => ⟨Options.isDomainEntry_of_mentions he, fun m hm => habsent m ?_⟩
    exact (Options.infix_of_mentions he m.isLower_text hm).trans htin

def ofParts (word : ResourceType → Text) (a : Action) (t : Text) (o : Options) : NetworkLine :=
  ⟨a, t, if o = {} then none else some (o.written word)⟩

section

variable {word : ResourceType → Text} {a : Action} {t : Text} {o : Options}

theorem text_ofParts_default : (ofParts word a t {}).text = a.sign ++ t := List.append_nil _

theorem text_ofParts (ho : o ≠ {}) : (ofParts word a t o).text = a.sign ++ t ++ '$' :: o.written word := by
  rw [text, ofParts, if_neg ho]
  rfl

end

namespace Writable

variable {word : ResourceType → Text} {a : Action} {t : Text} {o : Options}

/-- What parts a line from another is no letter, so small letters change nothing about it. -/
theorem lower (h : Writable a t o) : Writable a t.lower o := by
  refine ⟨⟨fun hnil => ?_, ?_⟩, fun hd => ?_, fun m hm => ?_, h.action.imp_right fun ⟨ha, hat, hc⟩ => ⟨ha, ?_, ?_⟩,
    h.options⟩
  · exact h.trimmed.nonempty (Text.lower_eq_nil.mp hnil)
  · rw [Text.trim_lower, h.trimmed.trimmed]
  · exact h.dollar (Text.mem_of_mem_lower (by decide) hd)
  · exact h.absent m (Text.infix_of_infix_lower m.isLower_text hm)
  · exact fun hb => hat (Text.prefix_of_prefix_lower (by decide) hb)
  · refine Line.isComment_eq_false hc fun c hmem hb => Text.prefix_of_prefix_lower ?_ hb
    rcases List.mem_pair.mp hmem with rfl | rfl <;> rfl

theorem isSplit (h : Writable a t o) : (ofParts word a t o).IsSplit :=
  ⟨h.dollar, h.action.imp_right fun ⟨ha, hat, _⟩ => ⟨ha, hat⟩⟩

theorem isTrimmed_text (h : Writable a t o) (hword : IsSpelling word) : Text.IsTrimmed (ofParts word a t o).text := by
  have hfront : Text.IsTrimmed (a.sign ++ t) := by
    rcases h.action with rfl | ⟨rfl, -⟩
    · have hsign : Text.IsTrimmed ['@', '@'] := ⟨by decide, by decide⟩
      exact hsign.append [] h.trimmed
    · exact h.trimmed
  by_cases ho : o = {}
  · subst ho
    rwa [text_ofParts_default]
  · have hoptions := h.options.isTrimmed_written (fun e he => he.1) hword ho
    rw [text_ofParts ho, List.append_cons]
    exact hfront.append ['$'] hoptions

theorem isComment_text (h : Writable a t o) : Line.isComment (ofParts word a t o).text = false := by
  rcases h.action with rfl | ⟨rfl, -, hc⟩
  · rfl
  · refine Line.isComment_eq_false hc fun c _ hb => ?_
    change [c] <+: t ++ optionsText _ at hb
    rw [List.singleton_prefix_iff_head?_eq_some] at hb ⊢
    rwa [List.head?_append_of_ne_nil _ h.trimmed.nonempty] at hb

theorem absent_text (h : Writable a t o) (hword : IsSpelling word) : Mark.Absent (ofParts word a t o).text := by
  intro m hm
  have hplain : '$' ∉ m.text ∧ ',' ∉ m.text ∧ '|' ∉ m.text := by cases m <;> decide
  obtain ⟨k, hk⟩ := m.exists_text
  have hsign : '#' ∉ a.sign := by cases a <;> decide
  by_cases ho : o = {}
  · subst ho
    rw [text_ofParts_default, hk, Text.infix_append_of_not_mem hsign, ← hk] at hm
    exact h.absent m hm
  · rw [text_ofParts ho, List.append_assoc, hk, Text.infix_append_of_not_mem hsign, ← hk] at hm
    -- a mark has no dollar sign, comma or bar, so it lies in the pattern or in an entry of the domain list
    rcases Text.infix_of_infix_append_cons hplain.1 hm with hm | hm
    · exact h.absent m hm
    · rw [hk] at hplain hm
      obtain ⟨e, he, hin⟩ := h.options.exists_infix_entry hword hplain.2.1 hplain.2.2 hm
      exact he.2 m (hk ▸ hin)

/-- The written line is told as a network line, and its parts from each other. -/
theorem ofText_text (h : Writable a t o) (hword : IsSpelling word) :
    Line.ofText (ofParts word a t o).text = .network (ofParts word a t o) := by
  have htrim := h.isTrimmed_text hword
  rw [Line.ofText_eq_network_iff, htrim.trimmed]
  exact ⟨htrim.nonempty, h.isComment_text, h.absent_text hword, ofText_eq_iff.mpr ⟨h.isSplit, rfl⟩⟩

theorem read_ofParts [Regex.Library] (h : Writable a t o) (hword : IsSpelling word) (hc : checkPattern (Pattern.ofText t) = .ok ()) :
    (ofParts word a t o).read = .ok (Pattern.ofText t, o) := by
  have hpattern : (ofParts word a t o).pattern.trim = t := h.trimmed.trimmed
  rw [read_eq_ok_iff, readOptions_eq_ok_iff, hpattern]
  refine ⟨?_, h.trimmed.nonempty, hc, rfl⟩
  by_cases ho : o = {}
  · exact Or.inl ⟨if_pos ho, ho⟩
  · have hoptions := h.options.isTrimmed_written (fun e he => he.1) hword ho
    refine Or.inr ⟨o.written word, if_neg ho, ?_, ?_⟩
    · rw [hoptions.trimmed]
      exact hoptions.nonempty
    · exact (h.options.read_written (fun e he => he.1) hword).symm

end Writable

end NetworkLine

namespace Rule

section

variable [Regex.Library] {source line : Text} {number : Nat} {r : Rule} {p : Pattern} {o : Options}

theorem ofLine?_of_read (source : Text) (number : Nat) {l : NetworkLine} (hl : Line.ofText line = .network l)
    (hr : l.read = .ok (p, o)) :
    ofLine? source number line =
      .ok (some ⟨l.action, .network p o, Priority.ofNetwork l.action o, source, number⟩) := by
  rw [ofLine?, hl, Line.rule?, hr]
  rfl

theorem exists_read_of_ofLine? (h : ofLine? source number line = .ok (some r)) (hb : r.body = .network p o) :
    ∃ l, Line.ofText line = .network l ∧ l.read = .ok (p, o) ∧
      r = ⟨l.action, .network p o, Priority.ofNetwork l.action o, source, number⟩ := by
  rcases Line.rule?_cases h with ⟨l, p', o', hl, hr, rfl⟩ | ⟨mark, pages, selector, -, -, rfl⟩
  · cases hb
    exact ⟨l, hl, hr, rfl⟩
  · simp only [Line.elementBody] at hb
    split_ifs at hb

/-- A network rule read from a line has one written pattern, and in the same place it is read again from the line it is
written as. -/
theorem ofLine?_rewritten {word : ResourceType → Text} (hword : IsSpelling word)
    (h : ofLine? source number line = .ok (some r)) (hb : r.body = .network p o) :
    ∃ w, p.texts = [w] ∧ ofLine? source number (NetworkLine.ofParts word r.action w o).text = .ok (some r) := by
  obtain ⟨l, hl, hr, rfl⟩ := exists_read_of_ofLine? h hb
  obtain ⟨-, -, hcheck, rfl⟩ := NetworkLine.read_eq_ok_iff.mp hr
  obtain ⟨w, htexts, hw, hsame⟩ := Pattern.exists_texts_ofText l.pattern.trim
  have hwritable : NetworkLine.Writable l.action w o := by
    have hread := NetworkLine.writable_of_read hl hr
    rcases hw with rfl | rfl
    · exact hread
    · exact hread.lower
  have hread := hwritable.read_ofParts hword (hsame.symm ▸ hcheck)
  rw [hsame] at hread
  have hline := ofLine?_of_read source number (hwritable.ofText_text hword) hread
  exact ⟨w, htexts, hline⟩

end

/-- What remains of the options of `shopLine`: of two mentions of images the last, and nothing of pop-ups. -/
def shopOptions : Options where
  initiators := ⟨.ofList ["b.example".toList], .ofList [" a.example".toList]⟩
  thirdParty := some true
  types := .single .image
  excludedTypes := .single .script

def shopRule : Rule where
  action := .allow
  body := .network (.hostAnchor "ads.shop.example".toList) shopOptions
  priority := Priority.ofNetwork .allow shopOptions
  source := "shop".toList
  line := 7

def shopLine : Text := " @@ ||Ads.Shop.example^ $~image,popup,~script,3p,Image,Domain=~ a.example|B.example ".toList

def writtenShopLine : Text :=
  "@@||ads.shop.example^$third-party,image,~script,domain=b.example|~ a.example".toList

theorem ofLine?_rewritten_shop : ofLine? "shop".toList 7 shopLine = .ok (some shopRule) ∧
    ofLine? "shop".toList 7 writtenShopLine = .ok (some shopRule) := by
  have hword : IsSpelling fun r => r.name.toList := by
    intro r
    cases r <;> decide
  have hline : ofLine? "shop".toList 7 shopLine = .ok (some shopRule) := by decide +kernel
  have hwritten : (NetworkLine.ofParts (fun r => r.name.toList) .allow "||ads.shop.example^".toList shopOptions).text =
      writtenShopLine := by decide +kernel
  obtain ⟨w, hw, hread⟩ := ofLine?_rewritten hword hline rfl
  obtain rfl : "||ads.shop.example^".toList = w := (List.cons.inj hw).1
  exact ⟨hline, hwritten ▸ hread⟩

end Rule

end Blocklist
