import Mathlib.Data.List.Infix

/-!
# Occurrences of a word in a text

The search for a word from a place on, and the text in which chosen occurrences of a word
are replaced.  Whether an occurrence is chosen may depend on all that stands before it and
behind it.
-/

namespace Hecaton.Library

universe u

variable {α : Type u} [DecidableEq α]

/-! ## Search -/

/-- The first place from `start` on at which the word stands. -/
def findFrom (word text : List α) (start : Nat) : Option Nat :=
  (List.range' start (text.length + 1 - start)).find? fun pos => word.isPrefixOf (text.drop pos)

theorem findFrom_of_isPrefix {word rest : List α} (before : List α) (isHere : word <+: rest) :
    findFrom word (before ++ rest) before.length = some before.length := by
  have places : (before ++ rest).length + 1 - before.length = rest.length + 1 := by
    rw [List.length_append]
    omega
  have here : word.isPrefixOf ((before ++ rest).drop before.length) = true := by
    rw [List.drop_left, List.isPrefixOf_iff_prefix]
    exact isHere
  rw [findFrom, places, List.range'_succ, List.find?_cons, here]

theorem findFrom_of_not_isPrefix {word rest : List α} (before : List α) {c : α}
    (notHere : ¬ word <+: c :: rest) :
    findFrom word (before ++ c :: rest) before.length =
      findFrom word (before ++ c :: rest) (before.length + 1) := by
  have places : (before ++ c :: rest).length + 1 - before.length =
      (before ++ c :: rest).length + 1 - (before.length + 1) + 1 := by
    rw [List.length_append, List.length_cons]
    omega
  have absent : word.isPrefixOf ((before ++ c :: rest).drop before.length) = false := by
    rw [List.drop_left, ← Bool.not_eq_true, List.isPrefixOf_iff_prefix]
    exact notHere
  rw [findFrom, places, List.range'_succ, List.find?_cons, absent, findFrom]

theorem findFrom_length {word : List α} (nonempty : word ≠ []) (text : List α) :
    findFrom word text text.length = none := by
  have places : text.length + 1 - text.length = 1 := by omega
  rw [findFrom, places]
  simp [nonempty]

/-- The word stands at the place that is found. -/
theorem split_of_findFrom {word text : List α} {start pos : Nat}
    (found : findFrom word text start = some pos) :
    start ≤ pos ∧ ∃ before behind, text = before ++ (word ++ behind) ∧ before.length = pos := by
  rw [findFrom, List.find?_range'_eq_some, List.mem_range'_1] at found
  obtain ⟨isHere, ⟨notEarlier, bound⟩, _⟩ := found
  obtain ⟨behind, isRest⟩ := List.isPrefixOf_iff_prefix.mp isHere
  refine ⟨notEarlier, text.take pos, behind, ?_, ?_⟩
  · rw [isRest, List.take_append_drop]
  · rw [List.length_take, Nat.min_eq_left (by omega)]

/-- An occurrence is found, or one before it. -/
theorem exists_findFrom_le (word before behind : List α) {start : Nat}
    (notEarlier : start ≤ before.length) :
    ∃ pos, pos ≤ before.length ∧ findFrom word (before ++ (word ++ behind)) start = some pos := by
  have isHere : word.isPrefixOf ((before ++ (word ++ behind)).drop before.length) = true := by
    rw [List.drop_left, List.isPrefixOf_iff_prefix]
    exact List.prefix_append word behind
  cases found : findFrom word (before ++ (word ++ behind)) start with
  | none =>
      rw [findFrom, List.find?_range'_eq_none] at found
      have bound : before.length < start +
          ((before ++ (word ++ behind)).length + 1 - start) := by
        rw [List.length_append]
        omega
      have absent := found before.length notEarlier bound
      rw [isHere] at absent
      exact absurd absent (by simp)
  | some pos =>
      refine ⟨pos, ?_, rfl⟩
      by_contra later
      rw [findFrom, List.find?_range'_eq_some] at found
      have absent := found.2.2 before.length notEarlier (by omega)
      rw [isHere] at absent
      exact absurd absent (by simp)

theorem findFrom_singleton {c : α} (before : List α) {front : List α} (notInFront : c ∉ front)
    (rest : List α) :
    findFrom [c] (before ++ (front ++ c :: rest)) before.length =
      some (before.length + front.length) := by
  induction front generalizing before with
  | nil => exact findFrom_of_isPrefix before ⟨rest, rfl⟩
  | cons d front ih =>
      have different : c ≠ d := List.ne_of_not_mem_cons notInFront
      have notHere : ¬ [c] <+: d :: (front ++ c :: rest) := by
        rintro ⟨more, isMore⟩
        exact different (List.cons.inj isMore).1
      have later := ih (before ++ [d]) (List.not_mem_of_not_mem_cons notInFront)
      rw [List.append_assoc, List.length_append, List.length_singleton] at later
      rw [List.cons_append, findFrom_of_not_isPrefix before notHere, List.length_cons]
      rw [List.singleton_append] at later
      rw [later]
      congr 1
      omega

theorem findFrom_singleton_eq_none {c : α} (before : List α) {rest : List α} (notIn : c ∉ rest) :
    findFrom [c] (before ++ rest) before.length = none := by
  induction rest generalizing before with
  | nil =>
      rw [List.append_nil]
      exact findFrom_length (by simp) before
  | cons d rest ih =>
      have notHere : ¬ [c] <+: d :: rest := by
        rintro ⟨more, isMore⟩
        exact List.ne_of_not_mem_cons notIn (List.cons.inj isMore).1
      have later := ih (before ++ [d]) (List.not_mem_of_not_mem_cons notIn)
      rw [List.append_assoc, List.length_append, List.length_singleton] at later
      rw [findFrom_of_not_isPrefix before notHere]
      exact later

/-! ## Replacement -/

/-- The text behind `before` in which every chosen occurrence of `old` is replaced by `new`.
The first `skip` elements belong to an occurrence that is replaced already. -/
def replaceChosen (chosen : List α → List α → Bool) (old new : List α) :
    Nat → List α → List α → List α
  | _, _, [] => []
  | skip + 1, before, c :: rest => replaceChosen chosen old new skip (before ++ [c]) rest
  | 0, before, c :: rest =>
      if old <+: c :: rest ∧ chosen before (c :: rest) = true then
        new ++ replaceChosen chosen old new (old.length - 1) (before ++ [c]) rest
      else c :: replaceChosen chosen old new 0 (before ++ [c]) rest

variable {chosen other : List α → List α → Bool} {old new : List α}

theorem replaceChosen_skip (skipped before rest : List α) :
    replaceChosen chosen old new skipped.length before (skipped ++ rest) =
      replaceChosen chosen old new 0 (before ++ skipped) rest := by
  induction skipped generalizing before with
  | nil => simp
  | cons c skipped ih =>
      rw [List.length_cons, List.cons_append, replaceChosen, ih]
      simp

/-- An occurrence that is chosen. -/
theorem replaceChosen_of_chosen (nonempty : old ≠ []) {before rest : List α}
    (isChosen : chosen before (old ++ rest) = true) :
    replaceChosen chosen old new 0 before (old ++ rest) =
      new ++ replaceChosen chosen old new 0 (before ++ old) rest := by
  obtain ⟨c, tail, rfl⟩ := List.exists_cons_of_ne_nil nonempty
  have here : c :: tail <+: c :: (tail ++ rest) := ⟨rest, rfl⟩
  rw [List.cons_append] at isChosen ⊢
  rw [replaceChosen, if_pos ⟨here, isChosen⟩, List.length_cons, Nat.add_sub_cancel,
    replaceChosen_skip]
  simp

/-- A place where nothing is replaced. -/
theorem replaceChosen_of_not {before rest : List α} {c : α}
    (notChosen : ¬ (old <+: c :: rest ∧ chosen before (c :: rest) = true)) :
    replaceChosen chosen old new 0 before (c :: rest) =
      c :: replaceChosen chosen old new 0 (before ++ [c]) rest := by
  rw [replaceChosen, if_neg notChosen]

theorem replaceChosen_nil (before : List α) : replaceChosen chosen old new 0 before [] = [] := by
  rw [replaceChosen]

/-- Only the choice at occurrences matters. -/
theorem replaceChosen_congr {before rest : List α} {skip : Nat}
    (same : ∀ done left, rest = done ++ left → old <+: left →
      chosen (before ++ done) left = other (before ++ done) left) :
    replaceChosen chosen old new skip before rest = replaceChosen other old new skip before rest := by
  induction rest generalizing before skip with
  | nil => cases skip <;> simp [replaceChosen]
  | cons c rest ih =>
      have later : ∀ skip, replaceChosen chosen old new skip (before ++ [c]) rest =
          replaceChosen other old new skip (before ++ [c]) rest := by
        intro skip
        apply ih
        intro done left split isHere
        have sameHere := same (c :: done) left (by rw [split, List.cons_append]) isHere
        simpa using sameHere
      cases skip with
      | succ skip => rw [replaceChosen, replaceChosen, later]
      | zero =>
          rw [replaceChosen, replaceChosen, later, later]
          by_cases isHere : old <+: c :: rest
          · have sameHere := same [] (c :: rest) rfl isHere
            rw [List.append_nil] at sameHere
            rw [sameHere]
          · simp [isHere]

/-- Where nothing is chosen the text stays. -/
theorem replaceChosen_of_none (before : List α) {word rest : List α}
    (none : ∀ done c left, word = done ++ c :: left → old <+: c :: left ++ rest →
      chosen (before ++ done) (c :: left ++ rest) = false) :
    replaceChosen chosen old new 0 before (word ++ rest) =
      word ++ replaceChosen chosen old new 0 (before ++ word) rest := by
  induction word generalizing before with
  | nil => simp
  | cons c word ih =>
      have notHere : ¬ (old <+: c :: (word ++ rest) ∧ chosen before (c :: (word ++ rest)) = true) := by
        rintro ⟨isHere, isChosen⟩
        have absent := none [] c word rfl isHere
        rw [List.append_nil, List.cons_append, isChosen] at absent
        cases absent
      have later := ih (before ++ [c]) fun done d left split isHere => by
        have absent := none (c :: done) d left (by rw [split, List.cons_append]) isHere
        simpa using absent
      rw [List.cons_append, replaceChosen_of_not notHere, later]
      simp

/-- A word replaced by itself leaves the text. -/
theorem replaceChosen_self (nonempty : old ≠ []) (before rest : List α) :
    replaceChosen chosen old old 0 before rest = rest := by
  induction length : rest.length using Nat.strong_induction_on generalizing before rest with
  | _ n ih =>
      cases rest with
      | nil => exact replaceChosen_nil before
      | cons c rest =>
          by_cases isChosen : old <+: c :: rest ∧ chosen before (c :: rest) = true
          · obtain ⟨⟨after, isAfter⟩, isTrue⟩ := isChosen
            rw [← isAfter] at isTrue length ⊢
            have positive := List.length_pos_of_ne_nil nonempty
            rw [List.length_append] at length
            rw [replaceChosen_of_chosen nonempty isTrue, ih after.length (by omega) _ _ rfl]
          · rw [List.length_cons] at length
            rw [replaceChosen_of_not isChosen, ih rest.length (by omega) _ _ rfl]

/-- A part that no occurrence leaves is replaced by itself. -/
theorem replaceChosen_append (nonempty : old ≠ []) {before before' word rest : List α}
    (inside : ∀ done left, word = done ++ left → left ≠ [] → old <+: left ++ rest → old <+: left)
    (same : ∀ done left, word = done ++ left → old <+: left →
      chosen (before ++ done) (left ++ rest) = other (before' ++ done) left) :
    replaceChosen chosen old new 0 before (word ++ rest) =
      replaceChosen other old new 0 before' word ++
        replaceChosen chosen old new 0 (before ++ word) rest := by
  induction length : word.length using Nat.strong_induction_on generalizing before before' word with
  | _ n ih =>
      cases word with
      | nil => simp [replaceChosen_nil]
      | cons c word =>
          have later : ∀ done left, c :: word = done ++ left → done ≠ [] →
              replaceChosen chosen old new 0 (before ++ done) (left ++ rest) =
                replaceChosen other old new 0 (before' ++ done) left ++
                  replaceChosen chosen old new 0 (before ++ (c :: word)) rest := by
            intro done left split nonemptyDone
            have shorter : left.length < n := by
              have positive := List.length_pos_of_ne_nil nonemptyDone
              rw [← length, split, List.length_append]
              omega
            rw [split, ← List.append_assoc]
            apply ih left.length shorter _ _ rfl
            · intro done' left' split'
              exact inside (done ++ done') left' (by rw [split, split', List.append_assoc])
            · intro done' left' split' isHere
              have sameHere := same (done ++ done') left'
                (by rw [split, split', List.append_assoc]) isHere
              rwa [← List.append_assoc, ← List.append_assoc] at sameHere
          by_cases isChosen : old <+: c :: word ∧ other before' (c :: word) = true
          · obtain ⟨⟨behind, isBehind⟩, isTrue⟩ := isChosen
            have sameHere := same [] (c :: word) rfl ⟨behind, isBehind⟩
            rw [List.append_nil, List.append_nil, isTrue] at sameHere
            have goOn := later old behind isBehind.symm nonempty
            rw [← isBehind] at isTrue sameHere goOn ⊢
            rw [List.append_assoc] at sameHere
            rw [List.append_assoc old, replaceChosen_of_chosen nonempty sameHere,
              replaceChosen_of_chosen nonempty isTrue, goOn, List.append_assoc]
          · have notChosen : ¬ (old <+: c :: (word ++ rest) ∧
                chosen before (c :: (word ++ rest)) = true) := by
              rintro ⟨isHere, isTrue⟩
              have isInside := inside [] (c :: word) rfl (by simp) isHere
              have sameHere := same [] (c :: word) rfl isInside
              rw [List.append_nil, List.append_nil, List.cons_append, isTrue] at sameHere
              exact isChosen ⟨isInside, sameHere.symm⟩
            rw [List.cons_append, replaceChosen_of_not notChosen, replaceChosen_of_not isChosen,
              later [c] word rfl (by simp), List.cons_append]

/-! ## Whole words -/

section WholeWords

variable {letter : α → Bool}

/-- The word stands at the start of `rest`, with no letter before it or behind it. -/
structure StandsWhole (letter : α → Bool) (word before rest : List α) : Prop where
  notBefore : ∀ c ∈ before.getLast?, letter c = false
  notBehind : ∀ c ∈ (rest.drop word.length).head?, letter c = false

omit [DecidableEq α] in
theorem not_standsWhole_of_letter {word before rest : List α} {c : α} (isLetter : letter c = true) :
    ¬ StandsWhole letter word (before ++ [c]) rest := by
  intro whole
  have notLetter := whole.notBefore c (by simp)
  rw [isLetter] at notLetter
  cases notLetter

/-- What is left of a text that begins with no letter begins with none either. -/
theorem takeWhile_replaceChosen (letters : ∀ c ∈ old, letter c = true) (nonempty : old ≠ [])
    {before rest : List α} (noLetter : ∀ c ∈ rest.head?, letter c = false) :
    (replaceChosen chosen old new 0 before rest).takeWhile letter = [] := by
  cases rest with
  | nil => simp [replaceChosen]
  | cons c rest =>
      have isNone := noLetter c (by simp)
      have notHere : ¬ (old <+: c :: rest ∧ chosen before (c :: rest) = true) := by
        rintro ⟨isHere, _⟩
        obtain ⟨d, tail, rfl⟩ := List.exists_cons_of_ne_nil nonempty
        rw [(List.cons_prefix_cons.mp isHere).1] at letters
        rw [letters c List.mem_cons_self] at isNone
        cases isNone
      rw [replaceChosen_of_not notHere]
      simp [isNone]

omit [DecidableEq α] in
/-- A choice of whole words chooses nothing inside an occurrence. -/
theorem chosen_inside_eq_false (letters : ∀ c ∈ old, letter c = true)
    (whole : ∀ before rest, old <+: rest → chosen before rest = true →
      StandsWhole letter old before rest) {before done inside left : List α}
    (split : old = done ++ inside) (inner : done ≠ []) (isHere : old <+: left) :
    chosen (before ++ done) left = false := by
  obtain ⟨front, d, rfl⟩ := (List.eq_nil_or_concat done).resolve_left inner
  by_contra isChosen
  have dMem : d ∈ old := by
    rw [split]
    simp
  have wholeHere := whole _ _ isHere (Bool.not_eq_false _ ▸ isChosen)
  rw [List.concat_eq_append, ← List.append_assoc] at wholeHere
  exact not_standsWhole_of_letter (letters d dMem) wholeHere

theorem replaceChosen_skip_occurrence (letters : ∀ c ∈ old, letter c = true)
    (whole : ∀ before rest, old <+: rest → chosen before rest = true →
      StandsWhole letter old before rest) {before rest : List α}
    (notHere : chosen before (old ++ rest) = false) :
    replaceChosen chosen old new 0 before (old ++ rest) =
      old ++ replaceChosen chosen old new 0 (before ++ old) rest := by
  apply replaceChosen_of_none
  intro done c left split isHere
  by_cases atStart : done = []
  · rw [atStart, List.nil_append] at split
    rw [atStart, ← split, List.append_nil]
    exact notHere
  · exact chosen_inside_eq_false letters whole split atStart isHere

/-- One choice of whole words and not the other gives another text. -/
theorem replaceChosen_ne (letters : ∀ c ∈ old, letter c = true)
    (newLetters : ∀ c ∈ new, letter c = true) (nonempty : old ≠ []) (different : old ≠ new)
    (whole : ∀ before rest, old <+: rest → chosen before rest = true →
      StandsWhole letter old before rest)
    (otherWhole : ∀ before rest, old <+: rest → other before rest = true →
      StandsWhole letter old before rest) {before rest : List α}
    (isChosen : chosen before (old ++ rest) = true)
    (isNot : other before (old ++ rest) = false) :
    replaceChosen chosen old new 0 before (old ++ rest) ≠
      replaceChosen other old new 0 before (old ++ rest) := by
  intro same
  have noLetter : ∀ c ∈ rest.head?, letter c = false := by
    have notBehind := (whole _ _ (List.prefix_append old rest) isChosen).notBehind
    rwa [List.drop_left] at notBehind
  rw [replaceChosen_of_chosen nonempty isChosen,
    replaceChosen_skip_occurrence letters otherWhole isNot] at same
  have words := congrArg (List.takeWhile letter) same
  rw [List.takeWhile_append_of_pos newLetters, List.takeWhile_append_of_pos letters,
    takeWhile_replaceChosen letters nonempty noLetter,
    takeWhile_replaceChosen letters nonempty noLetter, List.append_nil, List.append_nil] at words
  exact different words.symm

/-- Two choices of whole words give the same text exactly when they agree at every
occurrence. -/
theorem replaceChosen_eq_iff (letters : ∀ c ∈ old, letter c = true)
    (newLetters : ∀ c ∈ new, letter c = true) (nonempty : old ≠ []) (different : old ≠ new)
    (whole : ∀ before rest, old <+: rest → chosen before rest = true →
      StandsWhole letter old before rest)
    (otherWhole : ∀ before rest, old <+: rest → other before rest = true →
      StandsWhole letter old before rest) {before rest : List α} :
    replaceChosen chosen old new 0 before rest = replaceChosen other old new 0 before rest ↔
      ∀ done left, rest = done ++ left → old <+: left →
        chosen (before ++ done) left = other (before ++ done) left := by
  constructor
  · intro same done left split isHere
    -- By the length of the text: an occurrence that both choose is passed at once.
    induction length : rest.length using Nat.strong_induction_on generalizing before rest done with
    | _ n ih =>
        by_cases both : old <+: rest ∧ chosen before rest = true ∧ other before rest = true
        · obtain ⟨⟨after, rfl⟩, isChosen, isOther⟩ := both
          rw [replaceChosen_of_chosen nonempty isChosen, replaceChosen_of_chosen nonempty isOther] at same
          have shorter : after.length < n := by
            have positive := List.length_pos_of_ne_nil nonempty
            rw [List.length_append] at length
            omega
          rcases List.append_eq_append_iff.mp split with ⟨done', rfl, rfl⟩ | ⟨inside, inOld, rfl⟩
          · have later := ih _ shorter (List.append_cancel_left same) done' rfl rfl
            rwa [List.append_assoc] at later
          · by_cases atStart : done = []
            · rw [atStart, List.nil_append] at inOld
              rw [atStart, List.append_nil, ← inOld, isChosen, isOther]
            · rw [chosen_inside_eq_false letters whole inOld atStart isHere,
                chosen_inside_eq_false letters otherWhole inOld atStart isHere]
        · have notOne : old <+: rest → chosen before rest = false ∧ other before rest = false := by
            rintro ⟨after, rfl⟩
            cases isChosen : chosen before (old ++ after) with
            | true =>
                cases isOther : other before (old ++ after) with
                | true => exact absurd ⟨List.prefix_append _ _, isChosen, isOther⟩ both
                | false =>
                    exact absurd same (replaceChosen_ne letters newLetters nonempty different whole
                      otherWhole isChosen isOther)
            | false =>
                cases isOther : other before (old ++ after) with
                | true =>
                    exact absurd same.symm (replaceChosen_ne letters newLetters nonempty different
                      otherWhole whole isOther isChosen)
                | false => exact ⟨rfl, rfl⟩
          cases done with
          | nil =>
              rw [List.nil_append] at split
              rw [← split] at isHere
              rw [List.append_nil, ← split, (notOne isHere).1, (notOne isHere).2]
          | cons c done =>
              subst split
              have notChosen : ¬ (old <+: c :: (done ++ left) ∧
                  chosen before (c :: (done ++ left)) = true) := by
                rintro ⟨here, isChosen⟩
                rw [List.cons_append] at notOne
                rw [(notOne here).1] at isChosen
                cases isChosen
              have notOther : ¬ (old <+: c :: (done ++ left) ∧
                  other before (c :: (done ++ left)) = true) := by
                rintro ⟨here, isOther⟩
                rw [List.cons_append] at notOne
                rw [(notOne here).2] at isOther
                cases isOther
              rw [List.cons_append, replaceChosen_of_not notChosen, replaceChosen_of_not notOther] at same
              have shorter : (done ++ left).length < n := by
                rw [← length]
                exact Nat.lt_succ_self _
              have later := ih _ shorter (List.cons.inj same).2 done rfl rfl
              rwa [List.append_assoc] at later
  · exact replaceChosen_congr

end WholeWords

/-! ## Occurrences beside a separator -/

section Separator

variable {word before behind : List α} {c : α}

omit [DecidableEq α] in
/-- A word in a text lies on one side of a character or across it. -/
theorem infix_append_cons (isPart : word <:+: before ++ c :: behind) :
    word <:+: before ∨ word <:+: behind ∨
      ∃ front back, word = front ++ c :: back ∧ front <:+ before := by
  obtain ⟨start, rest, split⟩ := isPart
  rcases List.append_eq_append_iff.mp split with ⟨more, rfl, _⟩ | ⟨more, inWord, isRest⟩
  · exact Or.inl ⟨start, more, rfl⟩
  · cases more with
    | nil =>
        rw [List.append_nil] at inWord
        exact Or.inl ⟨start, [], by rw [List.append_nil, inWord]⟩
    | cons d more =>
        rw [List.cons_append] at isRest
        obtain ⟨rfl, rfl⟩ := List.cons.inj isRest
        rcases List.append_eq_append_iff.mp inWord with ⟨front, rfl, isWord⟩ | ⟨front, _, isWord⟩
        · exact Or.inr (Or.inr ⟨front, more, isWord, List.suffix_append start front⟩)
        · cases front with
          | nil => exact Or.inr (Or.inr ⟨[], more, isWord.symm, List.nil_suffix⟩)
          | cons d front =>
              rw [List.cons_append] at isWord
              obtain ⟨_, rfl⟩ := List.cons.inj isWord
              exact Or.inr (Or.inl ⟨front, rest, rfl⟩)

omit [DecidableEq α] in
/-- A word without the character does not lie across it. -/
theorem infix_append_cons_iff (absent : c ∉ word) :
    word <:+: before ++ c :: behind ↔ word <:+: before ∨ word <:+: behind := by
  constructor
  · intro isPart
    rcases infix_append_cons isPart with inBefore | inBehind | ⟨front, back, rfl, _⟩
    · exact Or.inl inBefore
    · exact Or.inr inBehind
    · exact absurd (by simp) absent
  · rintro (inBefore | inBehind)
    · exact inBefore.trans (List.prefix_append _ _).isInfix
    · exact inBehind.trans ((List.suffix_cons c behind).trans (List.suffix_append _ _)).isInfix

omit [DecidableEq α] in
/-- A word with the character at its end at most lies before it, up to it or behind it. -/
theorem infix_append_cons_iff_of_dropLast (absent : c ∉ word.dropLast) :
    word <:+: before ++ c :: behind ↔ word <:+: before ++ [c] ∨ word <:+: behind := by
  have upTo : before ++ c :: behind = before ++ [c] ++ behind := by simp
  constructor
  · intro isPart
    rcases infix_append_cons isPart with inBefore | inBehind | ⟨front, back, rfl, isEnd⟩
    · exact Or.inl (inBefore.trans (List.prefix_append _ _).isInfix)
    · exact Or.inr inBehind
    · cases back with
      | nil =>
          obtain ⟨start, rfl⟩ := isEnd
          exact Or.inl ⟨start, [], by simp⟩
      | cons d back =>
          rw [List.dropLast_append_cons, List.dropLast_cons_cons] at absent
          exact absurd (by simp) absent
  · rintro (inFront | inBehind)
    · rw [upTo]
      exact inFront.trans (List.prefix_append _ _).isInfix
    · rw [upTo]
      exact inBehind.trans (List.suffix_append _ _).isInfix

end Separator

end Hecaton.Library
