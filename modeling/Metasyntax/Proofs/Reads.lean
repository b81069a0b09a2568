import Metasyntax.Parsing.Production
import Metasyntax.Proofs.Written

/-! What reading a stretch of text does to a state. The parsers of characters,
of white space and of identifiers are described by it, so that no later proof
opens them. -/
namespace Metasyntax

/-! ## Furthest failures -/

/-- The two memories differ at most in failures that one at `n` or later hides. -/
def Failure.SameFrom (n : Nat) (old new : Option Failure) : Prop :=
  ∀ failure : Failure, n ≤ failure.pos → Failure.merge new failure = Failure.merge old failure

theorem Failure.SameFrom.refl (n : Nat) (old : Option Failure) : SameFrom n old old :=
  fun _ _ => rfl

theorem Failure.SameFrom.trans {n m : Nat} {old middle new : Option Failure}
    (first : SameFrom n old middle) (second : SameFrom m middle new) (le : n ≤ m) :
    SameFrom m old new := by
  intro failure later
  rw [second failure later, first failure (Nat.le_trans le later)]

theorem Failure.merge_merge {old : Option Failure} {first second : Failure}
    (le : first.pos ≤ second.pos) :
    Failure.merge (some (Failure.merge old first)) second = Failure.merge old second := by
  cases old with
  | none => simp [merge, Nat.not_lt.mpr le]
  | some failure =>
    by_cases hidden : first.pos < failure.pos
    · simp [merge, hidden]
    · have newer : ¬ second.pos < failure.pos := by omega
      simp [merge, hidden, newer, Nat.not_lt.mpr le]

theorem Failure.sameFrom_merge {n : Nat} (old : Option Failure) {failure : Failure}
    (le : failure.pos ≤ n) : SameFrom n old (some (merge old failure)) :=
  fun _ later => merge_merge (Nat.le_trans le later)

/-! ## Reading -/

/-- `t` is `s` after it has read the text, with `rest` still to read. -/
structure State.Reads (s : State) (text rest : List Char) (events : List Event) (t : State) :
    Prop where
  source : t.source = s.source
  pos : t.pos = s.pos + utf8Length text
  ahead : t.ahead? = some rest
  furthest : Failure.SameFrom t.pos s.furthest t.furthest
  events : t.events = s.events ++ events

theorem State.Reads.trans {s t u : State} {text more middle rest : List Char}
    {events later : List Event} (first : s.Reads text middle events t)
    (second : t.Reads more rest later u) : s.Reads (text ++ more) rest (events ++ later) u where
  source := second.source.trans first.source
  pos := by rw [second.pos, first.pos, utf8Length_append, Nat.add_assoc]
  ahead := second.ahead
  furthest := first.furthest.trans second.furthest (by rw [second.pos]; exact Nat.le_add_right _ _)
  events := by rw [second.events, first.events, List.append_assoc]

theorem State.Reads.cast {s t : State} {text same rest : List Char} {events alike : List Event}
    (h : s.Reads text rest events t) (texts : text = same) (logs : events = alike) :
    s.Reads same rest alike t := texts ▸ logs ▸ h

theorem State.Reads.refl {s : State} {rest : List Char} (ahead : s.ahead? = some rest) :
    s.Reads [] rest [] s :=
  ⟨rfl, rfl, ahead, .refl _ _, (List.append_nil _).symm⟩

theorem State.reads_advance {s : State} {text rest : List Char}
    (next : s.ahead? = some (text ++ rest)) : s.Reads text rest [] (s.advance text rest next) :=
  ⟨rfl, rfl, rfl, .refl _ _, (List.append_nil _).symm⟩

theorem State.reads_fail {s : State} {rest : List Char} (ahead : s.ahead? = some rest)
    (label : String) : s.Reads [] rest [] (s.fail label) :=
  ⟨rfl, rfl, ahead, Failure.sameFrom_merge _ (Nat.le_refl _), (List.append_nil _).symm⟩

@[simp] theorem State.events_note (s : State) (event : Event) :
    (s.note event).events = s.events ++ [event] := List.reverse_cons

theorem State.Reads.note {s t : State} {text rest : List Char} {events : List Event}
    (h : s.Reads text rest events t) (event : Event) :
    s.Reads text rest (events ++ [event]) (t.note event) where
  source := h.source
  pos := h.pos
  ahead := h.ahead
  furthest := h.furthest
  events := by rw [events_note, h.events, List.append_assoc]

theorem State.fail_fail (s : State) (first second : String) :
    (s.fail first).fail second = s.fail second := by
  unfold fail
  congr 2
  exact Failure.merge_merge (Nat.le_refl s.pos)

theorem State.start_ahead (source : Source) : (State.start source).ahead? = some source.chars :=
  dropBytes?_zero _

theorem State.start_ahead_of_eq {text : String} {chars : List Char} (h : text.toList = chars) :
    (State.start (.ofString text)).ahead? = some chars :=
  (start_ahead _).trans (congrArg some h)

theorem State.atEnd_of_ahead {s : State} {rest : List Char} (ahead : s.ahead? = some rest) :
    s.atEnd = rest.isEmpty := by
  have size : s.place.source.size = s.place.pos + utf8Length rest := Place.size_of_ahead ahead
  cases rest with
  | nil => simp [atEnd, Place.atEnd, size, utf8Length]
  | cons c cs =>
    have positive := c.utf8Size_pos
    simp only [atEnd, Place.atEnd, size, utf8Length, List.isEmpty_cons, decide_eq_false_iff_not]
    omega

theorem State.atEnd_of_goesOn {s : State} {rest : List Char} (ahead : s.ahead? = some rest)
    (goesOn : rest ≠ []) : s.atEnd = false := by
  rw [atEnd_of_ahead ahead]
  exact List.isEmpty_eq_false_iff.mpr goesOn

namespace Parser

variable {α β : Type}

theorem bind_of_matched {p : Parser α} {next : α → Parser β} {s t : State} {value : α}
    (h : p s = .matched t value) : (p >>= next) s = next value t := by
  change (p s).bind next = _
  rw [h]
  rfl

theorem bind_of_failed {p : Parser α} {next : α → Parser β} {s t : State}
    (h : p s = .failed t) : (p >>= next) s = .failed t := by
  change (p s).bind next = _
  rw [h]
  rfl

theorem attempt_of_failed {p : Parser α} {s t : State} (h : p s = .failed t) :
    p.attempt s = .failed (t.backTo s) := by
  unfold attempt
  rw [h]

theorem anyOf_cons_of_matched {p : Parser α} {ps : List (Parser α)} {s t : State} {value : α}
    (h : p s = .matched t value) : anyOf (p :: ps) s = .matched t value := by
  simp only [anyOf, attempt_eq_matched.mpr h]

theorem anyOf_cons_of_failed {p : Parser α} {ps : List (Parser α)} {s t : State}
    (h : p s = .failed t) : anyOf (p :: ps) s = anyOf ps (t.backTo s) := by
  simp only [anyOf, attempt_of_failed h]

/-! ## Characters -/

theorem raw_of_accepts {accepts : Char → Bool} {s : State} {c : Char} {rest : List Char}
    (ahead : s.ahead? = some (c :: rest)) (ok : accepts c = true) (label : String) :
    raw accepts label s = .matched (s.advance [c] rest ahead) c := by
  unfold raw
  split
  · rename_i d others next
    have same : c :: rest = d :: others := Option.some.inj (ahead.symm.trans next)
    cases same
    rw [if_pos ok]
  · rename_i next
    cases ahead.symm.trans next
  · rename_i next
    cases ahead.symm.trans next

theorem raw_of_stops {accepts : Char → Bool} {s : State} {rest : List Char}
    (ahead : s.ahead? = some rest) (stops : Stops accepts rest) (label : String) :
    raw accepts label s = .failed (s.fail label) := by
  unfold raw
  split
  · rename_i c others next
    have same : rest = c :: others := Option.some.inj (ahead.symm.trans next)
    cases same
    rw [if_neg (Bool.eq_false_iff.mp stops)]
  · rfl
  · rename_i next
    cases ahead.symm.trans next

theorem whitespace_of_run {s : State} {run rest : List Char}
    (ahead : s.ahead? = some (run ++ rest)) (spaces : ∀ c ∈ run, isSpace c = true)
    (nonempty : run ≠ []) (stops : Stops isSpace rest) :
    whitespace s = .matched (s.advance run rest ahead) (.ofList run) := by
  have taken : (run ++ rest).takeWhile isSpace = run := stops.takeWhile_append spaces
  have dropped : (run ++ rest).dropWhile isSpace = rest := stops.dropWhile_append spaces
  unfold whitespace
  split
  · rename_i cs next
    have same : run ++ rest = cs := Option.some.inj (ahead.symm.trans next)
    subst same
    simp only
    rw [if_neg (by simpa [taken] using nonempty)]
    simp only [taken, dropped]
  · rename_i next
    cases ahead.symm.trans next

theorem whitespace_of_stops {s : State} {rest : List Char} (ahead : s.ahead? = some rest)
    (stops : Stops isSpace rest) : whitespace s = .failed (s.fail "whitespace") := by
  have taken : ([] ++ rest).takeWhile isSpace = [] := stops.takeWhile_append (by simp)
  rw [List.nil_append] at taken
  unfold whitespace
  split
  · rename_i cs next
    have same : rest = cs := Option.some.inj (ahead.symm.trans next)
    subst same
    simp [taken]
  · rename_i next
    cases ahead.symm.trans next

theorem optional_of_matched {p : Parser α} {s t : State} {value : α} (h : p s = .matched t value) :
    p.optional s = .matched t (some value) := by
  unfold optional
  rw [attempt_eq_matched.mpr h]

theorem optional_of_failed {p : Parser α} {s t : State} (h : p s = .failed t) :
    p.optional s = .matched (t.backTo s) none := by
  unfold optional
  rw [attempt_of_failed h]

/-- White space is skipped to its end, and its absence is no failure. -/
theorem skipWhitespace_of_blank {s : State} {blank : Blank} {rest : List Char}
    (ahead : s.ahead? = some (blank.chars ++ rest)) (stops : Stops isSpace rest) :
    ∃ t, skipWhitespace s = .matched t () ∧ s.Reads blank.chars rest [] t := by
  by_cases empty : blank.chars = []
  · rw [empty] at ahead ⊢
    have missing := whitespace_of_stops ahead stops
    exact ⟨s.fail "whitespace", bind_of_matched (optional_of_failed missing), s.reads_fail ahead _⟩
  · have found := whitespace_of_run ahead blank.spaces empty stops
    exact ⟨_, bind_of_matched (optional_of_matched found), s.reads_advance ahead⟩

/-! ## Identifiers -/

/-- The class of a character may be found only after others have failed, which
leaves its traces in the memory. -/
theorem wordChar_of_accepts {s : State} {c : Char} {rest : List Char}
    (ahead : s.ahead? = some (c :: rest)) (word : isWordChar c = true) :
    ∃ t, wordChar s = .matched t c ∧ s.Reads [c] rest [] t := by
  unfold wordChar
  cases isLetter : isLetter c with
  | true => exact ⟨_, anyOf_cons_of_matched (raw_of_accepts ahead isLetter _), s.reads_advance ahead⟩
  | false =>
    have noLetter : letter s = .failed (s.fail "letter") := raw_of_stops ahead isLetter _
    rw [anyOf_cons_of_failed noLetter]
    have t := s.reads_fail ahead "letter"
    cases isDigit : isDigit c with
    | true =>
      exact ⟨_, anyOf_cons_of_matched (raw_of_accepts t.ahead isDigit _),
        t.trans (State.reads_advance t.ahead)⟩
    | false =>
      have under : (c == '_') = true := by simpa [isWordChar, isLetter, isDigit] using word
      have noDigit : digit (s.fail "letter") = .failed ((s.fail "letter").fail "digit") :=
        raw_of_stops t.ahead isDigit _
      rw [State.fail_fail] at noDigit
      change ∃ t, anyOf [digit, underscore] (s.fail "letter") = .matched t c ∧ _
      rw [anyOf_cons_of_failed noDigit]
      have u := s.reads_fail ahead "digit"
      exact ⟨_, anyOf_cons_of_matched (raw_of_accepts u.ahead under _),
        u.trans (State.reads_advance u.ahead)⟩

theorem stops_of_isWordChar {rest : List Char} (stops : Stops isWordChar rest) :
    Stops isLetter rest ∧ Stops isDigit rest ∧ Stops (· == '_') rest := by
  cases rest with
  | nil => exact ⟨trivial, trivial, trivial⟩
  | cons c rest => simpa [isWordChar, and_assoc] using stops

theorem wordChar_of_stops {s : State} {rest : List Char} (ahead : s.ahead? = some rest)
    (stops : Stops isWordChar rest) : wordChar s = .failed (s.fail "'_'") := by
  obtain ⟨noLetter, noDigit, noUnder⟩ := stops_of_isWordChar stops
  have first : letter s = .failed (s.fail "letter") := raw_of_stops ahead noLetter _
  have second : digit (s.fail "letter") = .failed ((s.fail "letter").fail "digit") :=
    raw_of_stops (s.reads_fail ahead _).ahead noDigit _
  rw [State.fail_fail] at second
  have third : underscore (s.fail "digit") = .failed ((s.fail "digit").fail "'_'") :=
    raw_of_stops (s.reads_fail ahead _).ahead noUnder _
  rw [State.fail_fail] at third
  calc wordChar s = anyOf [digit, underscore] (s.fail "letter") := anyOf_cons_of_failed first
    _ = anyOf [underscore] (s.fail "digit") := anyOf_cons_of_failed second
    _ = anyOf [] (s.fail "'_'") := anyOf_cons_of_failed third
    _ = .failed (s.fail "'_'") := rfl

theorem repeated_of_failed {p : Parser α} {s t : State} (h : p s = .failed t) :
    p.repeated s = .matched (t.backTo s) [] := by
  rw [repeated, attempt_of_failed h]

theorem repeated_of_matched {p : Parser α} {s t : State} {value : α} (h : p s = .matched t value)
    (less : t.remaining < s.remaining) : p.repeated s = (p.repeated t).map (value :: ·) := by
  rw [repeated, attempt_eq_matched.mpr h]
  exact if_pos less

/-- The rest of a name is read as far as it goes. -/
theorem repeated_wordChar {run rest : List Char} (word : ∀ c ∈ run, isWordChar c = true)
    (stops : Stops isWordChar rest) {s : State} (ahead : s.ahead? = some (run ++ rest)) :
    ∃ t, wordChar.repeated s = .matched t run ∧ s.Reads run rest [] t ∧
      t.furthest = some (Failure.merge s.furthest ⟨t.pos, "'_'"⟩) := by
  induction run generalizing s with
  | nil =>
    have failed := wordChar_of_stops ahead stops
    exact ⟨s.fail "'_'", repeated_of_failed failed, s.reads_fail ahead _, rfl⟩
  | cons c run ih =>
    rw [List.cons_append] at ahead
    obtain ⟨t, matched, reads⟩ := wordChar_of_accepts ahead (word c List.mem_cons_self)
    obtain ⟨u, later, others, furthest⟩ :=
      ih (fun d member => word d (List.mem_cons_of_mem c member)) reads.ahead
    have less : t.remaining < s.remaining := by
      have positive := c.utf8Size_pos
      rw [State.remaining_of_ahead reads.ahead, State.remaining_of_ahead ahead]
      simp only [utf8Length]
      omega
    refine ⟨u, ?_, reads.trans others, ?_⟩
    · rw [repeated_of_matched matched less, later]
      rfl
    · rw [furthest]
      congr 1
      exact reads.furthest _ (by simp [others.pos])

theorem identifier_of_name {s : State} {name : Name} {rest : List Char}
    (ahead : s.ahead? = some (name.chars ++ rest)) (stops : Stops isWordChar rest) :
    ∃ t, identifier s = .matched t name.identifier ∧
      s.Reads name.chars rest [.identifier name.identifier (s.pos + utf8Length name.chars)] t ∧
      t.furthest = some (Failure.merge s.furthest ⟨t.pos, "'_'"⟩) := by
  obtain ⟨c, cs, split, isLetter, word⟩ := name.exists_cons
  have named : (⟨.ofList (c :: cs)⟩ : Identifier) = name.identifier := by
    rw [← split, Name.ofList_chars]
  rw [split] at ahead ⊢
  rw [List.cons_append] at ahead
  have first : letter.expecting "identifier" s = .matched (s.advance [c] (cs ++ rest) ahead) c := by
    simp only [expecting, letter, raw_of_accepts ahead isLetter]
  have start : s.Reads [c] (cs ++ rest) [] (s.advance [c] (cs ++ rest) ahead) :=
    s.reads_advance ahead
  obtain ⟨t, others, reads, furthest⟩ := repeated_wordChar word stops start.ahead
  have whole : s.Reads (c :: cs) rest [] t := start.trans reads
  refine ⟨t.note (.identifier name.identifier (s.pos + utf8Length (c :: cs))), ?_,
    whole.note _, furthest⟩
  rw [identifier, bind_of_matched first, bind_of_matched others, ← whole.pos, ← named]
  rfl

theorem identifier_of_stops {s : State} {rest : List Char} (ahead : s.ahead? = some rest)
    (stops : Stops isLetter rest) : identifier s = .failed (s.fail "identifier") := by
  have first : letter.expecting "identifier" s = .failed ((s.fail "letter").fail "identifier") := by
    simp only [expecting, letter, raw_of_stops ahead stops]
  rw [State.fail_fail] at first
  exact bind_of_failed first

theorem symbol_of_cons {s : State} (sign : Symbol) {rest : List Char}
    (ahead : s.ahead? = some (sign.char :: rest)) :
    ∃ t, symbol sign s = .matched t sign.char ∧ s.Reads [sign.char] rest [] t := by
  refine ⟨s.advance [sign.char] rest ahead, ?_, s.reads_advance ahead⟩
  apply raw_of_accepts ahead
  exact beq_self_eq_true _

theorem symbol_of_stops {s : State} (sign : Symbol) {rest : List Char}
    (ahead : s.ahead? = some rest) (stops : Stops (· == sign.char) rest) :
    symbol sign s = .failed (s.fail sign.label) := raw_of_stops ahead stops _

end Parser

end Metasyntax
