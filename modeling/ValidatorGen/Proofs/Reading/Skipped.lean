import ValidatorGen.Proofs.Reading.Starts
import ValidatorGen.Reading.Skip

/-! What is read over is written. Main statement: reading over a value takes one form, whose brackets
are closed in the order in which they were opened. -/
namespace ValidatorGen.Reader

open Json

theorem skipName_sound {text rest : List Char} (h : skipName.result? text = some ((), rest)) :
    ∃ blanks pieces blanks', IsBlanks blanks ∧ (∀ p ∈ pieces, p.Proper) ∧ IsBlanks blanks'
      ∧ text = blanks ++ '"' :: (Text.bodyChars pieces ++ '"' :: (blanks' ++ ':' :: rest)) := by
  obtain ⟨blanks, c, tail, hblanks, htext, h⟩ := afterBlanks_sound h rfl
  simp only [result?_ite] at h
  split at h
  · next hc =>
    rw [result?_skip_bind, List.tail_cons, result?_bind, Option.bind_eq_some_iff] at h
    obtain ⟨⟨_, middle⟩, hskip, h⟩ := h
    obtain ⟨pieces, hproper, rfl⟩ := skipText_sound hskip
    obtain ⟨blanks', hblanks', hmiddle⟩ := colon_sound h
    simp only at hmiddle
    exact ⟨blanks, pieces, blanks', hblanks, hproper, hblanks', by rw [htext, hc, hmiddle]⟩
  · cases h

section Steps

variable {brackets : List Bracket} {state : SkipState} {text rest : List Char}

theorem openList_sound (h : (openList brackets).result? text = some (state, rest)) :
    (state = .after brackets ∧ ∃ blanks, IsBlanks blanks ∧ text = blanks ++ ']' :: rest)
      ∨ (state = .before (.list :: brackets) ∧ ∃ blanks, IsBlanks blanks
        ∧ text = blanks ++ rest) := by
  obtain ⟨blanks, c, tail, hblanks, htext, h⟩ := afterBlanks_sound h rfl
  simp only [result?_ite] at h
  split at h
  · next hc =>
    cases h
    exact .inl ⟨rfl, blanks, hblanks, by rw [htext, hc, List.tail_cons]⟩
  · cases h
    exact .inr ⟨rfl, blanks, hblanks, htext⟩

theorem openObject_sound (h : (openObject brackets).result? text = some (state, rest)) :
    (state = .after brackets ∧ ∃ blanks, IsBlanks blanks ∧ text = blanks ++ '}' :: rest)
      ∨ (state = .before (.object :: brackets) ∧ ∃ blanks pieces blanks', IsBlanks blanks
        ∧ (∀ p ∈ pieces, p.Proper) ∧ IsBlanks blanks'
        ∧ text = blanks ++ '"' :: (Text.bodyChars pieces ++ '"' :: (blanks' ++ ':' :: rest))) := by
  obtain ⟨blanks, c, tail, hblanks, htext, h⟩ := afterBlanks_sound h rfl
  simp only [result?_ite] at h
  split at h
  · next hc =>
    cases h
    exact .inl ⟨rfl, blanks, hblanks, by rw [htext, hc, List.tail_cons]⟩
  · rw [result?_bind, Option.bind_eq_some_iff] at h
    obtain ⟨⟨_, middle⟩, hname, h⟩ := h
    cases h
    obtain ⟨before, pieces, blanks', hbefore, hproper, hblanks', hname⟩ := skipName_sound hname
    refine .inr ⟨rfl, _, pieces, blanks', hblanks.append hbefore, hproper, hblanks', ?_⟩
    simp [htext, hname]

theorem skipHead_sound (h : (skipHead brackets).result? text = some (state, rest)) :
    ∃ before middle, IsBlanks before ∧ text = before ++ middle
      ∧ ((state = .after brackets ∧ IsFront middle rest)
        ∨ (∃ tail, middle = '[' :: tail ∧ (openList brackets).result? tail = some (state, rest))
        ∨ (∃ tail, middle = '{' :: tail
          ∧ (openObject brackets).result? tail = some (state, rest))) := by
  obtain ⟨before, c, tail, hbefore, htext, h⟩ := afterBlanks_sound h rfl
  refine ⟨before, c :: tail, hbefore, htext, ?_⟩
  simp only [result?_ite] at h
  split at h
  · next hc => exact .inr (.inl ⟨tail, by rw [hc], h⟩)
  split at h
  · next hc => exact .inr (.inr ⟨tail, by rw [hc], h⟩)
  refine .inl ?_
  split at h
  · next hc =>
    rw [result?_skip_bind, List.tail_cons, result?_bind, Option.bind_eq_some_iff] at h
    obtain ⟨⟨_, middle⟩, hskip, h⟩ := h
    cases h
    obtain ⟨pieces, hproper, rfl⟩ := skipText_sound hskip
    exact ⟨rfl, .text pieces, _, trivial, .text hproper, by simp [hc]⟩
  split at h
  · exact isFront_word .null trivial h
  split at h
  · exact isFront_word (.boolean true) trivial h
  split at h
  · exact isFront_word (.boolean false) trivial h
  split at h
  · rw [result?_bind, Option.bind_eq_some_iff] at h
    obtain ⟨⟨_, middle⟩, hskip, h⟩ := h
    cases h
    rw [skipNumber, result?_discard, Option.map_eq_some_iff] at hskip
    obtain ⟨⟨n, middle⟩, hnumeral, heq⟩ := hskip
    cases heq
    obtain ⟨chars, hwritten, htail⟩ := numeral_sound hnumeral
    exact ⟨rfl, .number n, chars, trivial, .number hwritten, htail⟩
  · cases h

theorem skipInList_sound (h : (skipInList brackets).result? text = some (state, rest)) :
    (state = .after brackets ∧ ∃ blanks, IsBlanks blanks ∧ text = blanks ++ ']' :: rest)
      ∨ (state = .before (.list :: brackets) ∧ ∃ blanks, IsBlanks blanks
        ∧ text = blanks ++ ',' :: rest) := by
  obtain ⟨blanks, c, tail, hblanks, htext, h⟩ := afterBlanks_sound h rfl
  simp only [result?_ite] at h
  split at h
  · next hc =>
    cases h
    exact .inr ⟨rfl, blanks, hblanks, by rw [htext, hc, List.tail_cons]⟩
  split at h
  · next hc =>
    cases h
    exact .inl ⟨rfl, blanks, hblanks, by rw [htext, hc, List.tail_cons]⟩
  · cases h

theorem skipInObject_sound (h : (skipInObject brackets).result? text = some (state, rest)) :
    (state = .after brackets ∧ ∃ blanks, IsBlanks blanks ∧ text = blanks ++ '}' :: rest)
      ∨ (state = .before (.object :: brackets) ∧ ∃ separator pieces blanks',
        Separator false separator ∧ (∀ p ∈ pieces, p.Proper) ∧ IsBlanks blanks'
        ∧ text = separator ++ '"' :: (Text.bodyChars pieces ++ '"' :: (blanks' ++ ':' :: rest))) := by
  obtain ⟨blanks, c, tail, hblanks, htext, h⟩ := afterBlanks_sound h rfl
  simp only [result?_ite] at h
  split at h
  · next hc =>
    rw [result?_skip_bind, List.tail_cons, result?_bind, Option.bind_eq_some_iff] at h
    obtain ⟨⟨_, middle⟩, hname, h⟩ := h
    cases h
    obtain ⟨before, pieces, blanks', hbefore, hproper, hblanks', htail⟩ := skipName_sound hname
    exact .inr ⟨rfl, _, pieces, blanks', .later hblanks hbefore, hproper, hblanks',
      by simp [htext, hc, htail]⟩
  split at h
  · next hc =>
    cases h
    exact .inl ⟨rfl, blanks, hblanks, by rw [htext, hc, List.tail_cons]⟩
  · cases h

end Steps

/-- The text up to the rest closes these brackets, the innermost first. -/
def Closes : List Bracket → List Char → List Char → Prop
  | [], text, rest => text = rest
  | .list :: brackets, text, rest => ∃ items chars middle, ItemsWritten false items chars
    ∧ text = chars ++ middle ∧ Closes brackets middle rest
  | .object :: brackets, text, rest => ∃ members chars middle, MembersWritten false members chars
    ∧ text = chars ++ middle ∧ Closes brackets middle rest

/-- What is left to be read over in a state: a form if none has been read, then what closes the
brackets. -/
def Remains : SkipState → List Char → List Char → Prop
  | .before brackets, text, rest => ∃ before chars form middle, IsBlanks before
    ∧ Written form chars ∧ text = before ++ (chars ++ middle) ∧ Closes brackets middle rest
  | .after brackets, text, rest => Closes brackets text rest

section Remains

variable {brackets : List Bracket} {state : SkipState} {text middle rest : List Char}
  (h : Remains state middle rest)
include h

theorem remains_inList (hstep : (skipInList brackets).result? text = some (state, middle)) :
    Remains (.after (.list :: brackets)) text rest := by
  obtain ⟨rfl, blanks, hblanks, rfl⟩ | ⟨rfl, blanks, hblanks, rfl⟩ := skipInList_sound hstep
  · exact ⟨[], _, middle, .close hblanks, by simp, h⟩
  · obtain ⟨before, chars, form, _, hbefore, hwritten, rfl, items, tail, after, htail, rfl,
      hcloses⟩ := h
    have hitem := ItemsWritten.item (.later hblanks hbefore) hwritten htail
    exact ⟨form :: items, _, after, hitem, by simp, hcloses⟩

theorem remains_inObject (hstep : (skipInObject brackets).result? text = some (state, middle)) :
    Remains (.after (.object :: brackets)) text rest := by
  obtain ⟨rfl, blanks, hblanks, rfl⟩ | ⟨rfl, separator, pieces, blanks', hseparator, hproper,
    hblanks', rfl⟩ := skipInObject_sound hstep
  · exact ⟨[], _, middle, .close hblanks, by simp, h⟩
  · obtain ⟨before, chars, form, _, hbefore, hwritten, rfl, members, tail, after, htail, rfl,
      hcloses⟩ := h
    have hmember := MembersWritten.member hseparator hproper hblanks' hbefore hwritten htail
    exact ⟨(pieces, form) :: members, _, after, hmember, by simp, hcloses⟩

theorem remains_before (hstep : (skipHead brackets).result? text = some (state, middle)) :
    Remains (.before brackets) text rest := by
  obtain ⟨before, front, hbefore, rfl, hcases⟩ := skipHead_sound hstep
  obtain ⟨rfl, form, chars, -, hwritten, rfl⟩ | ⟨tail, rfl, hopen⟩ | ⟨tail, rfl, hopen⟩ := hcases
  · exact ⟨before, chars, form, middle, hbefore, hwritten, rfl, h⟩
  · obtain ⟨rfl, blanks, hblanks, rfl⟩ | ⟨rfl, blanks, hblanks, rfl⟩ := openList_sound hopen
    · exact ⟨before, _, .list [], middle, hbefore, .list (.close hblanks), by simp, h⟩
    · obtain ⟨front, chars, form, _, hfront, hwritten, rfl, items, tail, after, htail, rfl,
        hcloses⟩ := h
      have hitem := ItemsWritten.item (.first (hblanks.append hfront)) hwritten htail
      exact ⟨before, _, .list (form :: items), after, hbefore, .list hitem, by simp, hcloses⟩
  · obtain ⟨rfl, blanks, hblanks, rfl⟩ | ⟨rfl, blanks, pieces, blanks', hblanks, hproper, hblanks',
      rfl⟩ := openObject_sound hopen
    · exact ⟨before, _, .object [], middle, hbefore, .object (.close hblanks), by simp, h⟩
    · obtain ⟨front, chars, form, _, hfront, hwritten, rfl, members, tail, after, htail, rfl,
        hcloses⟩ := h
      have hmember := MembersWritten.member (.first hblanks) hproper hblanks' hfront hwritten htail
      exact ⟨before, _, .object ((pieces, form) :: members), after, hbefore, .object hmember,
        by simp, hcloses⟩

end Remains

/-- A run reads over what remains. The cases are those of the step that the run starts with. -/
theorem remains_of_runs {state : SkipState} {text rest : List Char} {a : Unit}
    (h : Runs skipStep state text a rest) : Remains state text rest := by
  induction h with
  | @done state text rest _ hround =>
    cases state with
    | before brackets =>
      rw [skipStep, result?_map, Option.map_eq_some_iff] at hround
      obtain ⟨_, -, heq⟩ := hround
      cases heq
    | after brackets =>
      match brackets with
      | [] =>
        cases hround
        exact rfl
      | .list :: brackets | .object :: brackets =>
        rw [skipStep, result?_map, Option.map_eq_some_iff] at hround
        obtain ⟨_, -, heq⟩ := hround
        cases heq
  | @again state next text middle rest _ hround _ ih =>
    cases state with
    | before brackets =>
      rw [skipStep, result?_map, Option.map_eq_some_iff] at hround
      obtain ⟨⟨next, after⟩, hhead, heq⟩ := hround
      cases heq
      exact remains_before ih hhead
    | after brackets =>
      match brackets with
      | [] => cases hround
      | .list :: brackets =>
        rw [skipStep, result?_map, Option.map_eq_some_iff] at hround
        obtain ⟨⟨next, after⟩, hlist, heq⟩ := hround
        cases heq
        exact remains_inList ih hlist
      | .object :: brackets =>
        rw [skipStep, result?_map, Option.map_eq_some_iff] at hround
        obtain ⟨⟨next, after⟩, hobject, heq⟩ := hround
        cases heq
        exact remains_inObject ih hobject

/-- What is read over is a written form, to whatever depth it is nested. -/
theorem starts_skipValue : Starts skipValue := by
  intro text rest a h
  obtain ⟨before, chars, form, _, hbefore, hwritten, htext, rfl⟩ := remains_of_runs (runs_of_loop h)
  exact ⟨before, chars, form, hbefore, hwritten, htext⟩

end ValidatorGen.Reader
