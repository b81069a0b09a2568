import Metasyntax.Parsing.Character

/-! Parsers do not go back: a match leaves no more bytes to read than there
were. What takes a character leaves fewer, so that reading rule after rule ends. -/
namespace Metasyntax

variable {α β : Type}

theorem Place.size_of_ahead {place : Place} {rest : List Char} (h : place.ahead? = some rest) :
    place.source.size = place.pos + utf8Length rest := by
  obtain ⟨before, split, length⟩ := dropBytes?_eq_some (place.ahead?_eq ▸ h)
  rw [place.source.size_eq, split, utf8Length_append, length]

theorem State.remaining_of_ahead {s : State} {rest : List Char} (h : s.ahead? = some rest) :
    s.remaining = utf8Length rest := by
  have size : s.place.source.size = s.place.pos + utf8Length rest := Place.size_of_ahead h
  simp only [State.remaining, Place.remaining, size]
  omega

theorem State.remaining_of_place {s t : State} (h : t.place = s.place) :
    t.remaining = s.remaining := congrArg Place.remaining h

theorem State.remaining_advance {s : State} {consumed rest : List Char}
    (next : s.ahead? = some (consumed ++ rest)) :
    (s.advance consumed rest next).remaining + utf8Length consumed = s.remaining := by
  have ahead : (s.advance consumed rest next).ahead? = some rest := rfl
  rw [State.remaining_of_ahead ahead, State.remaining_of_ahead next, utf8Length_append]
  omega

namespace Parser

def NeverBack (p : Parser α) : Prop :=
  ∀ s t value, p s = .matched t value → t.remaining ≤ s.remaining

def Consumes (p : Parser α) : Prop :=
  ∀ s t value, p s = .matched t value → t.remaining < s.remaining

theorem Consumes.neverBack {p : Parser α} (h : p.Consumes) : p.NeverBack :=
  fun s t value matched => Nat.le_of_lt (h s t value matched)

theorem neverBack_succeed (value : α) : (succeed value).NeverBack := by
  intro s t value h
  cases h
  exact Nat.le_refl _

theorem neverBack_report (event : Nat → Event) : (report event).NeverBack := by
  intro s t value h
  cases h
  exact Nat.le_refl _

theorem bind_eq_matched {p : Parser α} {next : α → Parser β} {s t : State} {value : β}
    (h : (p >>= next) s = .matched t value) :
    ∃ u middle, p s = .matched u middle ∧ next middle u = .matched t value := by
  change (p s).bind next = _ at h
  cases outcome : p s with
  | matched u middle => exact ⟨u, middle, rfl, by simpa [outcome, Outcome.bind] using h⟩
  | failed u => simp [outcome, Outcome.bind] at h
  | stuck u => simp [outcome, Outcome.bind] at h

theorem NeverBack.bind {p : Parser α} {next : α → Parser β} (hp : p.NeverBack)
    (hn : ∀ value, (next value).NeverBack) : (p >>= next).NeverBack := by
  intro s t value h
  obtain ⟨u, middle, first, second⟩ := bind_eq_matched h
  exact Nat.le_trans (hn middle u t value second) (hp s u middle first)

theorem Consumes.bind {p : Parser α} {next : α → Parser β} (hp : p.Consumes)
    (hn : ∀ value, (next value).NeverBack) : (p >>= next).Consumes := by
  intro s t value h
  obtain ⟨u, middle, first, second⟩ := bind_eq_matched h
  exact Nat.lt_of_le_of_lt (hn middle u t value second) (hp s u middle first)

theorem attempt_eq_matched {p : Parser α} {s t : State} {value : α} :
    p.attempt s = .matched t value ↔ p s = .matched t value := by
  unfold attempt
  cases p s <;> simp

theorem attempt_eq_failed {p : Parser α} {s t : State} (h : p.attempt s = .failed t) :
    t.place = s.place := by
  unfold attempt at h
  cases outcome : p s with
  | matched | stuck => simp [outcome] at h
  | failed u =>
    simp only [outcome, Outcome.failed.injEq] at h
    rw [← h]
    rfl

theorem Consumes.attempt {p : Parser α} (hp : p.Consumes) : p.attempt.Consumes :=
  fun s t value h => hp s t value (attempt_eq_matched.mp h)

theorem Consumes.expecting {p : Parser α} (hp : p.Consumes) (label : String) :
    (p.expecting label).Consumes := by
  intro s t value h
  unfold Parser.expecting at h
  cases outcome : p s with
  | matched u found =>
    simp only [outcome, Outcome.matched.injEq] at h
    exact h.1 ▸ hp s u found outcome
  | failed | stuck => simp [outcome] at h

theorem NeverBack.optional {p : Parser α} (hp : p.NeverBack) : p.optional.NeverBack := by
  intro s t value h
  unfold Parser.optional at h
  cases outcome : p.attempt s with
  | matched u found =>
    simp only [outcome, Outcome.matched.injEq] at h
    exact h.1 ▸ hp s u found (attempt_eq_matched.mp outcome)
  | failed u =>
    simp only [outcome, Outcome.matched.injEq] at h
    exact h.1 ▸ Nat.le_of_eq (State.remaining_of_place (attempt_eq_failed outcome))
  | stuck => simp [outcome] at h

theorem NeverBack.anyOf {ps : List (Parser α)} (hp : ∀ p ∈ ps, p.NeverBack) :
    (anyOf ps).NeverBack := by
  induction ps with
  | nil => intro s t value h; simp [Parser.anyOf] at h
  | cons p ps ih =>
    intro s t value h
    rw [Parser.anyOf] at h
    cases outcome : p.attempt s with
    | matched u found =>
      simp only [outcome, Outcome.matched.injEq] at h
      exact h.1 ▸ hp p List.mem_cons_self s u found (attempt_eq_matched.mp outcome)
    | failed u =>
      simp only [outcome] at h
      have later := ih (fun q hq => hp q (List.mem_cons_of_mem p hq)) u t value h
      rwa [State.remaining_of_place (attempt_eq_failed outcome)] at later
    | stuck => simp [outcome] at h

theorem NeverBack.repeated {p : Parser α} (hp : p.NeverBack) : p.repeated.NeverBack := by
  intro s
  fun_induction Parser.repeated p s with
  | case1 s u found outcome less ih =>
    intro t values h
    cases rest : p.repeated u with
    | matched v others =>
      simp only [rest, Outcome.map, Outcome.matched.injEq] at h
      exact h.1 ▸ Nat.le_trans (ih v others rest) (Nat.le_of_lt less)
    | failed | stuck => simp [rest, Outcome.map] at h
  | case2 s u found outcome notLess =>
    intro t values h
    simp only [Outcome.matched.injEq] at h
    exact h.1 ▸ hp s u found (attempt_eq_matched.mp outcome)
  | case3 s u outcome =>
    intro t values h
    simp only [Outcome.matched.injEq] at h
    exact h.1 ▸ Nat.le_of_eq (State.remaining_of_place (attempt_eq_failed outcome))
  | case4 s u outcome =>
    intro t values h
    cases h

theorem consumes_raw (accepts : Char → Bool) (label : String) : (raw accepts label).Consumes := by
  intro s t value h
  unfold raw at h
  split at h
  · rename_i c rest next
    split at h
    · simp only [Outcome.matched.injEq] at h
      have bytes : (s.advance [c] rest next).remaining + utf8Length [c] = s.remaining :=
        State.remaining_advance next
      have positive := c.utf8Size_pos
      rw [h.1] at bytes
      simp only [utf8Length] at bytes
      omega
    · cases h
  · cases h
  · cases h

theorem neverBack_whitespace : whitespace.NeverBack := by
  intro s t value h
  unfold whitespace at h
  split at h
  · rename_i cs next
    simp only at h
    split at h
    · cases h
    · simp only [Outcome.matched.injEq] at h
      have split : s.ahead? = some (cs.takeWhile isSpace ++ cs.dropWhile isSpace) := by
        rw [next, List.takeWhile_append_dropWhile]
      have bytes := State.remaining_advance split
      rw [h.1] at bytes
      omega
  · cases h

theorem neverBack_skipWhitespace : skipWhitespace.NeverBack :=
  neverBack_whitespace.optional.bind fun _ => neverBack_succeed ()

end Parser

end Metasyntax
