import AsyncRPC.Lib.Separated
import AsyncRPC.LogFormatter

/-!
# What becomes of a pattern

Directive by directive, what `init` makes of it: the characters between them go to `str` and nowhere
else.
-/

namespace AsyncRPC.LogFormatter

variable {pattern rest : List UInt8} {pieces : List Piece}

section Loop

/-- The items pushed before and the characters collected have no say in those to come. -/
theorem initLoop_eq (pattern str : List UInt8) (items : List FormatItem) :
    initLoop pattern str items = items ++ init pattern := by
  induction hn : pattern.length using Nat.strongRecOn generalizing pattern str items with
  | ind n ih =>
      cases pattern with
      | nil => rw [init, initLoop, initLoop, List.append_nil]
      | cons c rest =>
          have hrest : rest.length < n := by
            rw [← hn]
            exact Nat.lt_succ_self _
          have hbehind : (directive rest).2.length < n :=
            Nat.lt_of_le_of_lt (length_directive_le rest) hrest
          rw [init, initLoop, initLoop]
          split
          · rw [ih _ hrest _ _ _ rfl, ih _ hrest _ _ _ rfl, List.nil_append]
          · rw [ih _ hbehind _ _ _ rfl, ih _ hbehind _ _ _ rfl, List.nil_append, List.append_assoc]

theorem init_nil : init [] = [] := by rw [init, initLoop]

theorem init_literal {c : UInt8} (hc : c ≠ percent) : init (c :: rest) = init rest := by
  rw [init, initLoop, if_pos hc, initLoop_eq, List.nil_append]

theorem init_percent : init (percent :: rest) = (directive rest).1 ++ init (directive rest).2 := by
  rw [init, initLoop, if_neg (not_not_intro rfl), initLoop_eq, List.nil_append]

theorem init_known {c : UInt8} {make : List UInt8 → FormatItem} (hc : c ≠ letterD)
    (hmake : itemMap c = some make) : init (percent :: c :: rest) = make [c] :: init rest := by
  rw [init_percent, directive, if_pos hc]
  simp only [hmake]
  rfl

theorem init_unknown {c : UInt8} (hnone : itemMap c = none) :
    init (percent :: c :: rest) = errorItem [c, greater] :: init rest := by
  have hc : c ≠ letterD := by
    rintro rfl
    cases hnone
  rw [init_percent, directive, if_pos hc]
  simp only [hnone]
  rfl

theorem init_atEnd : init [percent] = [errorItem [greater]] := by
  rw [init_percent, directive, init_nil]
  rfl

theorem init_date_directive : init (percent :: letterD :: rest) =
    (dateDirective rest).1 ++ init (dateDirective rest).2 := by
  rw [init_percent, directive, if_neg (not_not_intro rfl)]

theorem init_braced : init (percent :: letterD :: openBrace :: rest) =
    (bracedDate rest).1 ++ init (bracedDate rest).2 := by
  rw [init_date_directive, dateDirective, if_neg (not_not_intro rfl)]

theorem init_dateAtEnd : init [percent, letterD] = [] := by
  rw [init_date_directive, dateDirective, init_nil, List.append_nil]

theorem init_date (hne : rest ≠ []) (hbrace : rest.head? ≠ some openBrace) :
    init (percent :: letterD :: rest) = dataTimeFormatItem [] :: init rest := by
  cases rest with
  | nil => exact absurd rfl hne
  | cons b behind =>
      have hb : b ≠ openBrace := fun hb => hbrace (by rw [hb]; rfl)
      rw [init_date_directive, dateDirective, if_pos hb, List.singleton_append]

theorem init_braceAtEnd : init [percent, letterD, openBrace] = [errorItem [greater]] := by
  rw [init_braced, bracedDate, init_nil, List.append_nil]

theorem init_dateFormat {format : List UInt8} (hformat : closeBrace ∉ format) :
    init (percent :: letterD :: openBrace :: (format ++ closeBrace :: rest)) =
      dataTimeFormatItem format :: init rest := by
  have hindex := @Separated.idxOf?_first UInt8 closeBrace _ _ format rest hformat
  have hdrop : (format ++ closeBrace :: rest).drop (format.length + 1) = rest := by
    rw [← List.drop_drop, List.drop_left, List.drop_one, List.tail_cons]
  have hdate : bracedDate (format ++ closeBrace :: rest) = ([dataTimeFormatItem format], rest) := by
    generalize htext : format ++ closeBrace :: rest = text at hindex hdrop
    cases text with
    | nil => cases hindex
    | cons b others =>
        rw [bracedDate]
        simp only [hindex, hdrop]
        rw [← htext, List.take_left]
  rw [init_braced, hdate, List.singleton_append]

theorem init_unclosed (hne : rest ≠ []) (hclose : closeBrace ∉ rest) :
    init (percent :: letterD :: openBrace :: rest) = (Piece.unclosed rest).item :: init rest.tail := by
  cases rest with
  | nil => exact absurd rfl hne
  | cons b others =>
      rw [init_braced, bracedDate, List.idxOf?_eq_none_iff.mpr hclose]
      rfl

end Loop

section Pattern

/-- Every pattern is made of pieces. -/
theorem exists_made (pattern : List UInt8) : ∃ pieces, Made pattern pieces := by
  induction hn : pattern.length using Nat.strongRecOn generalizing pattern with
  | ind n ih =>
      have hread : ∀ rest : List UInt8, rest.length < pattern.length → ∃ pieces, Made rest pieces :=
        fun rest hrest => ih rest.length (by rw [← hn]; exact hrest) rest rfl
      match pattern with
      | [] => exact ⟨_, .nil⟩
      | c :: rest =>
          by_cases hc : c = percent
          · subst hc
            match rest with
            | [] => exact ⟨_, .atEnd⟩
            | c :: rest =>
                obtain ⟨pieces, hpieces⟩ := hread rest (by simp only [List.length_cons]; omega)
                by_cases hd : c = letterD
                · subst hd
                  by_cases hbrace : rest.head? = some openBrace
                  · obtain ⟨rest, rfl⟩ := List.head?_eq_some_iff.mp hbrace
                    by_cases hclose : closeBrace ∈ rest
                    · obtain ⟨format, rest, rfl, hformat⟩ := List.eq_append_cons_of_mem hclose
                      obtain ⟨pieces, hpieces⟩ := hread rest (by simp; omega)
                      exact ⟨_, .dateFormat hformat hpieces⟩
                    · by_cases hrest : rest = []
                      · subst hrest
                        exact ⟨_, .braceAtEnd⟩
                      · exact ⟨_, .unclosed hrest hclose⟩
                  · exact ⟨_, .date hbrace hpieces⟩
                · cases hmap : itemMap c with
                  | none => exact ⟨_, .unknown hmap hpieces⟩
                  | some make => exact ⟨_, .known hd hmap hpieces⟩
          · obtain ⟨pieces, hpieces⟩ := hread rest (by simp)
            exact ⟨_, .literal hc hpieces⟩

theorem silent_literal {c : UInt8} (hc : c ≠ percent) : Silent (c :: rest) ↔ Silent rest := by
  constructor
  · rintro (hnone | ⟨before, hbefore, htext⟩)
    · exact Or.inl fun hmem => hnone (List.mem_cons_of_mem c hmem)
    · cases before with
      | nil => exact absurd (List.cons.inj htext).1 hc
      | cons b before =>
          exact Or.inr ⟨before, fun hmem => hbefore (List.mem_cons_of_mem b hmem), (List.cons.inj htext).2⟩
  · rintro (hnone | ⟨before, hbefore, rfl⟩)
    · exact Or.inl (List.not_mem_cons_of_ne_of_not_mem hc.symm hnone)
    · exact Or.inr ⟨c :: before, List.not_mem_cons_of_ne_of_not_mem hc.symm hbefore, rfl⟩

theorem silent_percent : Silent (percent :: rest) ↔ rest = [letterD] := by
  constructor
  · rintro (hnone | ⟨before, hbefore, htext⟩)
    · exact absurd List.mem_cons_self hnone
    · cases before with
      | nil => exact (List.cons.inj htext).2
      | cons b before =>
          exact absurd List.mem_cons_self ((List.cons.inj htext).1 ▸ hbefore)
  · rintro rfl
    exact Or.inr ⟨[], List.not_mem_nil, rfl⟩

theorem init_eq_nil_iff (pattern : List UInt8) : init pattern = [] ↔ Silent pattern := by
  obtain ⟨pieces, hmade⟩ := exists_made pattern
  induction hmade with
  | nil => exact iff_of_true init_nil (Or.inl List.not_mem_nil)
  | literal hc _ ih => rw [init_literal hc, silent_literal hc, ih]
  | known hc hmake =>
      rw [init_known hc hmake, silent_percent]
      exact iff_of_false (List.cons_ne_nil _ _) fun h => hc (List.cons.inj h).1
  | unknown hnone =>
      rw [init_unknown hnone, silent_percent]
      refine iff_of_false (List.cons_ne_nil _ _) fun h => ?_
      rw [(List.cons.inj h).1] at hnone
      cases hnone
  | atEnd =>
      rw [init_atEnd, silent_percent]
      exact iff_of_false (List.cons_ne_nil _ _) (List.cons_ne_nil _ _).symm
  | @date rest _ hbrace =>
      by_cases hrest : rest = []
      · subst hrest
        exact iff_of_true init_dateAtEnd (silent_percent.mpr rfl)
      · rw [init_date hrest hbrace, silent_percent]
        exact iff_of_false (List.cons_ne_nil _ _) fun h => hrest (List.cons.inj h).2
  | dateFormat hformat =>
      rw [init_dateFormat hformat, silent_percent]
      exact iff_of_false (List.cons_ne_nil _ _) fun h => List.cons_ne_nil _ _ (List.cons.inj h).2
  | braceAtEnd =>
      rw [init_braceAtEnd, silent_percent]
      exact iff_of_false (List.cons_ne_nil _ _) fun h => List.cons_ne_nil _ _ (List.cons.inj h).2
  | unclosed hne hclose =>
      rw [init_unclosed hne hclose, silent_percent]
      exact iff_of_false (List.cons_ne_nil _ _) fun h => List.cons_ne_nil _ _ (List.cons.inj h).2

theorem Kept.tail {piece : Piece} (h : Kept (piece :: pieces)) : Kept pieces := by
  refine ⟨fun c hc => h.directives c (List.mem_cons_of_mem _ hc), fun hlast => h.last ?_,
    fun rest hrest => h.behind rest (List.mem_cons_of_mem _ hrest)⟩
  rw [List.getLast?_cons, hlast]
  rfl

/-- Where nothing is outside of directives, every piece has its item. -/
theorem init_of_kept (hmade : Made pattern pieces) (hkept : Kept pieces) :
    init pattern = pieces.map Piece.item := by
  induction hmade with
  | nil => exact init_nil
  | literal => exact absurd List.mem_cons_self (hkept.directives _)
  | known hc hmake _ ih =>
      rw [init_known hc hmake, ih hkept.tail]
      rfl
  | unknown hnone _ ih =>
      rw [init_unknown hnone, ih hkept.tail]
      rfl
  | atEnd => exact init_atEnd
  | @date rest pieces hbrace hrest ih =>
      have hne : rest ≠ [] := by
        rintro rfl
        cases hrest
        exact hkept.last rfl
      rw [init_date hne hbrace, ih hkept.tail]
      rfl
  | dateFormat hformat _ ih =>
      rw [init_dateFormat hformat, ih hkept.tail]
      rfl
  | braceAtEnd => exact init_braceAtEnd
  | @unclosed rest hne hclose =>
      have hsilent := (init_eq_nil_iff rest.tail).mpr (hkept.behind rest List.mem_cons_self)
      rw [init_unclosed hne hclose, hsilent]
      rfl

end Pattern

section Exact

/-- An event of which every item has something to say, without a `%` and with no `>` at the end. -/
def sample : Event where
  date := fun _ => [50, 48, 50, 54, 45, 48, 49, 45, 48, 49, 32, 48, 48, 58, 48, 48, 58, 48, 48]
  level := .info
  loggerName := [114, 111, 111, 116]
  threadId := 1
  threadName := [109, 97, 105, 110]
  file := [109, 97, 105, 110, 46, 99, 99]
  line := 1
  content := [104, 105]
  fiberId := 0

/-- The item shows in the text: as an error, or at the end of what is written so far. -/
def Loud (item : FormatItem) : Prop :=
  percent ∈ item.format sample ∨
    item.format sample ≠ [] ∧ (item.format sample).getLast? ≠ some greater

theorem loud_errorItem (what : List UInt8) : Loud (errorItem what) :=
  Or.inl (List.mem_append_left what (by decide))

theorem loud_dataTimeFormatItem (str : List UInt8) : Loud (dataTimeFormatItem str) := by
  refine Or.inr ⟨?_, ?_⟩
  · exact List.cons_ne_nil _ _
  · change some (48 : UInt8) ≠ some greater
    decide

theorem loud_of_itemMap {c : UInt8} {make : List UInt8 → FormatItem} (h : itemMap c = some make)
    (str : List UInt8) : Loud (make str) := by
  have hfixed : ∀ item ∈ [FormatItem.tab, .level, .logName, .threadId, .threadName, .fileName, .line,
      .message, .newLine, .fiberId], Loud item := by
    unfold Loud
    decide
  obtain ⟨front, behind, htable, -⟩ := List.lookup_eq_some_iff.mp h
  have hentry : (c, make) ∈ itemTable := by
    rw [htable]
    exact List.mem_append_right _ List.mem_cons_self
  have hitem : make str ∈ itemTable.map fun entry => entry.2 str := List.mem_map_of_mem hentry
  rcases List.mem_cons.mp hitem with hdate | hitem
  · rw [hdate]
    exact loud_dataTimeFormatItem str
  · exact hfixed _ hitem

theorem loud_directive (rest : List UInt8) : ∀ item ∈ (directive rest).1, Loud item := by
  have hone : ∀ item, Loud item → ∀ item' ∈ [item], Loud item' := by
    intro item hitem item' hitem'
    rwa [List.mem_singleton.mp hitem']
  cases rest with
  | nil => exact hone _ (loud_errorItem _)
  | cons c rest =>
      rw [directive]
      split
      · split
        · next make hmake => exact hone _ (loud_of_itemMap hmake _)
        · exact hone _ (loud_errorItem _)
      · cases rest with
        | nil => exact fun item hitem => absurd hitem List.not_mem_nil
        | cons b behind =>
            rw [dateDirective]
            split
            · exact hone _ (loud_dataTimeFormatItem _)
            · cases behind with
              | nil => exact hone _ (loud_errorItem _)
              | cons b others =>
                  rw [bracedDate]
                  split
                  · exact hone _ (loud_errorItem _)
                  · exact hone _ (loud_dataTimeFormatItem _)

theorem loud_init (pattern : List UInt8) : ∀ item ∈ init pattern, Loud item := by
  induction hn : pattern.length using Nat.strongRecOn generalizing pattern with
  | ind n ih =>
      cases pattern with
      | nil =>
          rw [init_nil]
          exact fun item hitem => absurd hitem List.not_mem_nil
      | cons c rest =>
          have hrest : rest.length < n := by
            rw [← hn]
            exact Nat.lt_succ_self _
          by_cases hc : c = percent
          · subst hc
            have hbehind : (directive rest).2.length < n :=
              Nat.lt_of_le_of_lt (length_directive_le rest) hrest
            rw [init_percent]
            intro item hitem
            rcases List.mem_append.mp hitem with hitem | hitem
            · exact loud_directive rest item hitem
            · exact ih _ hbehind _ rfl item hitem
          · rw [init_literal hc]
            exact ih _ hrest _ rfl

/-- Without errors among them the items leave something at the end that no error leaves. -/
theorem getLast?_format {items : List FormatItem} (hne : items ≠ []) (hloud : ∀ item ∈ items, Loud item)
    (hpercent : percent ∉ format sample items) :
    format sample items ≠ [] ∧ (format sample items).getLast? ≠ some greater := by
  rcases List.eq_nil_or_concat items with rfl | ⟨front, item, rfl⟩
  · exact absurd rfl hne
  rw [List.concat_eq_append] at hloud hpercent ⊢
  have happend : format sample (front ++ [item]) = format sample front ++ item.format sample := by
    rw [format, List.flatMap_append, List.flatMap_singleton, format]
  rw [happend] at hpercent ⊢
  rcases hloud item (List.mem_append_right _ (List.mem_singleton_self _)) with herror | ⟨hsome, hlast⟩
  · exact absurd (List.mem_append_right _ herror) hpercent
  · exact ⟨List.append_ne_nil_of_right_ne_nil _ hsome, by rwa [List.getLast?_append_of_ne_nil _ hsome]⟩

/-- The items of the second round over the text behind a `%d{` that is not closed. -/
def behind : List Piece → List FormatItem
  | [] => []
  | .literal _ :: pieces => behind pieces
  | .date :: pieces => behind pieces
  | .directive _ :: pieces => behind pieces
  | .unclosed rest :: _ => init rest.tail

theorem loud_behind (pieces : List Piece) : ∀ item ∈ behind pieces, Loud item := by
  induction pieces with
  | nil => exact fun item hitem => absurd hitem List.not_mem_nil
  | cons piece pieces ih =>
      cases piece with
      | literal => exact ih
      | date => exact ih
      | directive => exact ih
      | unclosed rest => exact loud_init rest.tail

/-- How many characters are lost. -/
def lost : List Piece → Nat
  | [] => 0
  | .literal _ :: pieces => 1 + lost pieces
  | .date :: pieces => (if pieces = [] then (Piece.date.item.format sample).length else 0) + lost pieces
  | .directive _ :: pieces => lost pieces
  | .unclosed _ :: pieces => lost pieces

/-- What is lost of the pieces, and what is put behind them. -/
structure Account (pattern : List UInt8) (pieces : List Piece) : Prop where
  length : (format sample (init pattern)).length + lost pieces =
    (format sample (pieces.map Piece.item)).length + (format sample (behind pieces)).length
  percents : (format sample (init pattern)).count percent =
    (format sample (pieces.map Piece.item)).count percent + (format sample (behind pieces)).count percent
  ends : behind pieces ≠ [] →
    (∃ text, format sample (init pattern) = text ++ format sample (behind pieces)) ∧
      (format sample (pieces.map Piece.item)).getLast? = some greater

theorem format_cons (event : Event) (item : FormatItem) (items : List FormatItem) :
    format event (item :: items) = item.format event ++ format event items := rfl

/-- A piece whose item is pushed changes nothing in the account of the others. -/
theorem Account.cons {piece : Piece} {longer : List UInt8} (h : Account pattern pieces)
    (hinit : init longer = piece.item :: init pattern) (hlost : lost (piece :: pieces) = lost pieces)
    (hbehind : behind (piece :: pieces) = behind pieces) : Account longer (piece :: pieces) := by
  obtain ⟨hlength, hpercents, hends⟩ := h
  refine ⟨?_, ?_, fun hne => ?_⟩
  · rw [hinit, hlost, hbehind, List.map_cons, format_cons, format_cons, List.length_append,
      List.length_append]
    omega
  · rw [hinit, hbehind, List.map_cons, format_cons, format_cons, List.count_append, List.count_append]
    omega
  · rw [hbehind] at hne ⊢
    obtain ⟨⟨text, htext⟩, hgreater⟩ := hends hne
    rw [hinit, List.map_cons, format_cons, format_cons, htext]
    refine ⟨⟨_, (List.append_assoc _ _ _).symm⟩, ?_⟩
    rw [List.getLast?_append, hgreater]
    rfl

/-- One that is left out is missing from the text. -/
theorem Account.skip {piece : Piece} {longer : List UInt8} (h : Account pattern pieces)
    (hinit : init longer = init pattern)
    (hlost : lost (piece :: pieces) = (piece.item.format sample).length + lost pieces)
    (hpercent : percent ∉ piece.item.format sample)
    (hbehind : behind (piece :: pieces) = behind pieces) : Account longer (piece :: pieces) := by
  obtain ⟨hlength, hpercents, hends⟩ := h
  refine ⟨?_, ?_, fun hne => ?_⟩
  · rw [hinit, hlost, hbehind, List.map_cons, format_cons, List.length_append]
    omega
  · rw [hinit, hbehind, List.map_cons, format_cons, List.count_append, List.count_eq_zero.mpr hpercent]
    omega
  · rw [hbehind] at hne ⊢
    obtain ⟨htext, hgreater⟩ := hends hne
    rw [hinit, List.map_cons, format_cons, List.getLast?_append, hgreater]
    exact ⟨htext, rfl⟩

theorem account_nil : Account [] [] := by
  refine ⟨?_, ?_, fun hne => absurd rfl hne⟩
  · rw [init_nil]
    rfl
  · rw [init_nil]
    rfl

theorem Made.account (h : Made pattern pieces) : Account pattern pieces := by
  induction h with
  | nil => exact account_nil
  | @literal c rest pieces hc _ ih =>
      exact ih.skip (init_literal hc) rfl (fun hmem => hc (List.mem_singleton.mp hmem).symm) rfl
  | known hc hmake _ ih => exact ih.cons (init_known hc hmake) rfl rfl
  | unknown hnone _ ih => exact ih.cons (init_unknown hnone) rfl rfl
  | atEnd => exact account_nil.cons (by rw [init_atEnd, init_nil]; rfl) rfl rfl
  | @date rest pieces hbrace hrest ih =>
      by_cases hne : rest = []
      · subst hne
        cases hrest
        exact account_nil.skip (by rw [init_dateAtEnd, init_nil]) rfl (by decide) rfl
      · have hpieces : pieces ≠ [] := by
          rintro rfl
          cases hrest
          exact hne rfl
        refine ih.cons (init_date hne hbrace) ?_ rfl
        rw [lost, if_neg hpieces, Nat.zero_add]
  | dateFormat hformat _ ih => exact ih.cons (init_dateFormat hformat) rfl rfl
  | braceAtEnd => exact account_nil.cons (by rw [init_braceAtEnd, init_nil]; rfl) rfl rfl
  | @unclosed rest hne hclose =>
      have hinit := init_unclosed hne hclose
      have hitem : format sample ([Piece.unclosed rest].map Piece.item) =
          (Piece.unclosed rest).item.format sample := List.append_nil _
      refine ⟨?_, ?_, fun _ => ⟨⟨_, by rw [hinit, format_cons]; rfl⟩, ?_⟩⟩
      · rw [hinit, format_cons, hitem, List.length_append]
        rfl
      · rw [hinit, format_cons, hitem, List.count_append]
        rfl
      · rw [hitem, Piece.item, errorItem, FormatItem.format, List.getLast?_append_of_ne_nil _ (by simp),
          List.getLast?_append_of_ne_nil _ (by simp)]
        rfl

theorem Kept.cons {piece : Piece} (h : Kept pieces) (hliteral : ∀ c, piece ≠ .literal c)
    (hdate : pieces = [] → piece ≠ .date) (hbehind : ∀ rest, piece = .unclosed rest → Silent rest.tail) :
    Kept (piece :: pieces) := by
  refine ⟨fun c hc => ?_, fun hlast => ?_, fun rest hrest => ?_⟩
  · rcases List.mem_cons.mp hc with hc | hc
    · exact hliteral c hc.symm
    · exact h.directives c hc
  · cases pieces with
    | nil => exact hdate rfl (Option.some.inj hlast)
    | cons piece' pieces => exact h.last (by rwa [List.getLast?_cons_cons] at hlast)
  · rcases List.mem_cons.mp hrest with hrest | hrest
    · exact hbehind rest hrest.symm
    · exact h.behind rest hrest

theorem kept_nil : Kept [] := by
  refine ⟨fun _ => List.not_mem_nil, fun hlast => ?_, fun _ hrest => absurd hrest List.not_mem_nil⟩
  cases hlast

theorem Kept.directive (h : Kept pieces) (item : FormatItem) : Kept (.directive item :: pieces) := by
  apply h.cons
  · intro c hc
    cases hc
  · intro _ hdate
    cases hdate
  · intro rest hrest
    cases hrest

/-- Where nothing is lost and nothing put behind, all is kept. -/
theorem kept_of_lost (hmade : Made pattern pieces) (hlost : lost pieces = 0) (hbehind : behind pieces = []) :
    Kept pieces := by
  induction hmade with
  | nil => exact kept_nil
  | literal =>
      rw [lost] at hlost
      omega
  | known _ _ _ ih => exact (ih hlost hbehind).directive _
  | unknown _ _ ih => exact (ih hlost hbehind).directive _
  | atEnd => exact kept_nil.directive _
  | @date rest pieces hbrace hrest ih =>
      rw [lost] at hlost
      have hpieces : pieces ≠ [] := by
        rintro rfl
        rw [if_pos rfl] at hlost
        cases hlost
      apply (ih (by omega) hbehind).cons
      · intro c hc
        cases hc
      · intro hnil
        exact absurd hnil hpieces
      · intro rest hrest
        cases hrest
  | dateFormat _ _ ih => exact (ih hlost hbehind).directive _
  | braceAtEnd => exact kept_nil.directive _
  | @unclosed rest hne hclose =>
      apply kept_nil.cons
      · intro c hc
        cases hc
      · intro _ hdate
        cases hdate
      · intro rest' hrest'
        cases hrest'
        exact (init_eq_nil_iff rest.tail).mp hbehind

/-- One event tells. -/
theorem kept_of_format_eq (hmade : Made pattern pieces)
    (h : format sample (init pattern) = format sample (pieces.map Piece.item)) : Kept pieces := by
  obtain ⟨hlength, hpercents, hends⟩ := hmade.account
  rw [h] at hlength hpercents
  have hbehind : behind pieces = [] := by
    by_contra hne
    obtain ⟨⟨text, htext⟩, hgreater⟩ := hends hne
    obtain ⟨hsome, hlast⟩ := getLast?_format hne (loud_behind pieces) (List.count_eq_zero.mp (by omega))
    rw [← h, htext, List.getLast?_append_of_ne_nil _ hsome] at hgreater
    exact hlast hgreater
  apply kept_of_lost hmade _ hbehind
  rw [hbehind] at hlength
  change _ + lost pieces = _ + 0 at hlength
  omega

end Exact

theorem formats_iff_kept (hmade : Made pattern pieces) : Formats pattern pieces ↔ Kept pieces := by
  constructor
  · intro h
    exact kept_of_format_eq hmade (h sample)
  · intro hkept event
    rw [init_of_kept hmade hkept]

/-- What is written of an event is what the pattern says just if the pattern has nothing outside of its
directives, does not end with `%d`, and begins no directive behind a `%d{` that it does not close. -/
theorem init_formats_iff (pattern : List UInt8) :
    (∃ pieces, Made pattern pieces) ∧
      ∀ pieces, Made pattern pieces → (Formats pattern pieces ↔ Kept pieces) :=
  ⟨exists_made pattern, fun _ hmade => formats_iff_kept hmade⟩

/-- `[%m]` -/
def bracketed : List UInt8 := [91, 37, 109, 93]

theorem made_bracketed : Made bracketed [.literal 91, .directive .message, .literal 93] :=
  .literal (by decide) (@Made.known 109 (fun _ => .message) [93] [.literal 93] (by decide) rfl
    (.literal (by decide) .nil))

/-- The brackets are gone. -/
theorem not_formats_bracketed :
    init bracketed = [.message] ∧ Made bracketed [.literal 91, .directive .message, .literal 93] ∧
      ¬ Formats bracketed [.literal 91, .directive .message, .literal 93] := by
  refine ⟨?_, made_bracketed, fun h => ?_⟩
  · calc init bracketed = init (percent :: 109 :: [93]) := init_literal (by decide)
      _ = .message :: init [93] := @init_known [93] 109 (fun _ => .message) (by decide) rfl
      _ = [.message] := by rw [init_literal (by decide), init_nil]
  · exact ((formats_iff_kept made_bracketed).mp h).directives 91 List.mem_cons_self

end AsyncRPC.LogFormatter
