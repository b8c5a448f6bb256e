import Mathlib.Data.List.Basic

/-!
# Comments and literals

A C text is read character by character.  What stands in a comment is passed over; what
stands in a string or character literal is shown, but opens no comment.  The characters
may carry more than the character, such as where they come from.
-/

namespace Hecaton.Library

universe u

/-- What a literal stands between. -/
inductive Quote
  | double
  | single
  deriving DecidableEq

def Quote.char : Quote → Char
  | double => '"'
  | single => '\''

/-- Where the reading of a text is: in code, behind a slash that may open a comment, in a
comment up to the end of the line, behind a backslash there, in a comment up to its end,
behind a star there, in a literal, behind a backslash there. -/
inductive Reading (α : Type u)
  | code
  | slash (first : α)
  | line
  | splice
  | block
  | star
  | literal (quote : Quote)
  | escape (quote : Quote)
  deriving DecidableEq

namespace Reading

variable {α : Type u} (charOf : α → Char)

/-- The reading behind a character of code. -/
def behindCode (c : α) : Reading α :=
  if charOf c = '/' then .slash c
  else if charOf c = Quote.double.char then .literal .double
  else if charOf c = Quote.single.char then .literal .single
  else .code

/-- What a character of code shows at once.  A slash waits for the next character, and a
backslash only joins lines. -/
def shownInCode (c : α) : List α :=
  if charOf c = '/' ∨ charOf c = '\\' then [] else [c]

/-- The reading behind one more character. -/
def next (c : α) : Reading α → Reading α
  | code => behindCode charOf c
  | slash _ =>
      if charOf c = '/' then line
      else if charOf c = '*' then block
      else behindCode charOf c
  | line => if charOf c = '\n' then code else if charOf c = '\\' then splice else line
  | splice => if charOf c = '\\' then splice else line
  | block => if charOf c = '*' then star else block
  | star => if charOf c = '/' then code else if charOf c = '*' then star else block
  | literal quote =>
      if charOf c = quote.char ∨ charOf c = '\n' then code
      else if charOf c = '\\' then escape quote
      else literal quote
  | escape quote => literal quote

/-- What one more character shows. -/
def shows (c : α) : Reading α → List α
  | code => shownInCode charOf c
  | slash first =>
      if charOf c = '/' ∨ charOf c = '*' then [] else first :: shownInCode charOf c
  | line => if charOf c = '\n' then [c] else []
  | splice => []
  | block => []
  | star => []
  | literal _ => [c]
  | escape _ => [c]

/-- A slash that nothing follows is shown. -/
def waiting : Reading α → List α
  | slash first => [first]
  | _ => []

/-- The reading behind a text. -/
def after (reading : Reading α) (text : List α) : Reading α :=
  text.foldl (fun reading c => reading.next charOf c) reading

/-- What a text shows, but for a slash that still waits. -/
def shown : Reading α → List α → List α
  | _, [] => []
  | reading, c :: rest => reading.shows charOf c ++ (reading.next charOf c).shown rest

/-- What stands outside comments in a whole text. -/
def uncommented (reading : Reading α) (text : List α) : List α :=
  reading.shown charOf text ++ (reading.after charOf text).waiting

/-- Code, not a comment or a literal. -/
def isCode : Reading α → Bool
  | code => true
  | slash _ => true
  | _ => false

/-! ## Readings of joined texts -/

variable {charOf}

@[simp]
theorem after_nil (reading : Reading α) : reading.after charOf [] = reading := rfl

@[simp]
theorem after_cons (reading : Reading α) (c : α) (rest : List α) :
    reading.after charOf (c :: rest) = (reading.next charOf c).after charOf rest := rfl

theorem after_append (reading : Reading α) (text rest : List α) :
    reading.after charOf (text ++ rest) = (reading.after charOf text).after charOf rest :=
  List.foldl_append

theorem shown_append (reading : Reading α) (text rest : List α) :
    reading.shown charOf (text ++ rest) =
      reading.shown charOf text ++ (reading.after charOf text).shown charOf rest := by
  induction text generalizing reading with
  | nil => rfl
  | cons c text ih =>
      rw [List.cons_append, shown, ih, shown, List.append_assoc, after_cons]

theorem uncommented_append (reading : Reading α) (text rest : List α) :
    reading.uncommented charOf (text ++ rest) =
      reading.shown charOf text ++ (reading.after charOf text).uncommented charOf rest := by
  rw [uncommented, shown_append, after_append, List.append_assoc, uncommented]

theorem uncommented_cons (reading : Reading α) (c : α) (rest : List α) :
    reading.uncommented charOf (c :: rest) =
      reading.shows charOf c ++ (reading.next charOf c).uncommented charOf rest := by
  rw [uncommented, shown, after_cons, List.append_assoc, uncommented]

/-- Only the character read last may wait, and only a slash. -/
theorem mem_waiting_next {reading : Reading α} {c d : α}
    (isWaiting : d ∈ (reading.next charOf c).waiting) : d = c ∧ charOf d = '/' := by
  have behind : ∀ {d}, d ∈ (behindCode charOf c).waiting → d = c ∧ charOf d = '/' := by
    intro d dMem
    simp only [behindCode] at dMem
    split at dMem
    · next isSlash =>
      rw [waiting, List.mem_singleton] at dMem
      exact ⟨dMem, dMem ▸ isSlash⟩
    · split at dMem
      · simp [waiting] at dMem
      · split at dMem <;> simp [waiting] at dMem
  cases reading with
  | code => exact behind isWaiting
  | slash first =>
      simp only [next] at isWaiting
      split at isWaiting
      · simp [waiting] at isWaiting
      · split at isWaiting
        · simp [waiting] at isWaiting
        · exact behind isWaiting
  | _ =>
      simp only [next] at isWaiting
      repeat' split at isWaiting
      all_goals simp [waiting] at isWaiting

/-- A character shows itself or the slash that was waiting. -/
theorem mem_shows {reading : Reading α} {c d : α} (isShown : d ∈ reading.shows charOf c) :
    d = c ∨ d ∈ reading.waiting := by
  have inCode : d ∈ shownInCode charOf c → d = c := by
    intro dMem
    rw [shownInCode] at dMem
    split at dMem
    · exact absurd dMem List.not_mem_nil
    · exact List.mem_singleton.mp dMem
  cases reading with
  | code => exact Or.inl (inCode isShown)
  | slash first =>
      simp only [shows] at isShown
      split at isShown
      · exact absurd isShown List.not_mem_nil
      · rcases List.mem_cons.mp isShown with rfl | inRest
        · exact Or.inr List.mem_cons_self
        · exact Or.inl (inCode inRest)
  | line =>
      simp only [shows] at isShown
      split at isShown
      · exact Or.inl (List.mem_singleton.mp isShown)
      · exact absurd isShown List.not_mem_nil
  | literal quote => exact Or.inl (List.mem_singleton.mp isShown)
  | escape quote => exact Or.inl (List.mem_singleton.mp isShown)
  | _ => exact absurd isShown List.not_mem_nil

/-- Only what stands in the text is shown, or a slash that was waiting. -/
theorem mem_uncommented {reading : Reading α} {text : List α} {c : α}
    (isShown : c ∈ reading.uncommented charOf text) : c ∈ text ∨ c ∈ reading.waiting := by
  induction text generalizing reading with
  | nil => exact Or.inr isShown
  | cons d text ih =>
      rw [uncommented_cons] at isShown
      rcases List.mem_append.mp isShown with now | later
      · rcases mem_shows now with rfl | isWaiting
        · exact Or.inl List.mem_cons_self
        · exact Or.inr isWaiting
      · rcases ih later with inText | isWaiting
        · exact Or.inl (List.mem_cons_of_mem _ inText)
        · exact Or.inl (by simp [(mem_waiting_next isWaiting).1])

theorem mem_waiting_after {reading : Reading α} (notWaiting : reading.waiting = [])
    {text : List α} {c : α} (isWaiting : c ∈ (reading.after charOf text).waiting) :
    c ∈ text ∧ charOf c = '/' := by
  rcases List.eq_nil_or_concat text with rfl | ⟨front, last, rfl⟩
  · rw [after_nil, notWaiting] at isWaiting
    exact absurd isWaiting List.not_mem_nil
  · rw [List.concat_eq_append, after_append, after_cons, after_nil] at isWaiting
    obtain ⟨rfl, isSlash⟩ := mem_waiting_next isWaiting
    exact ⟨by simp, isSlash⟩

/-! ## A line comment -/

variable (charOf) in
/-- The rest of a line, where a backslash joins the next line to it, and what stands behind.
The flag says that a backslash stands before. -/
def splitLine : Bool → List α → List α × List α
  | _, [] => ([], [])
  | spliced, c :: rest =>
      if charOf c = '\n' ∧ spliced = false then ([], c :: rest)
      else
        let (front, more) := splitLine (charOf c == '\\') rest
        (c :: front, more)

variable (charOf) in
theorem splitLine_append (spliced : Bool) (text : List α) :
    (splitLine charOf spliced text).1 ++ (splitLine charOf spliced text).2 = text := by
  induction text generalizing spliced with
  | nil => rfl
  | cons c rest ih =>
      rw [splitLine]
      split
      · rfl
      · rw [List.cons_append, ih]

/-- Behind the line stands a newline, if anything. -/
theorem head_splitLine (spliced : Bool) (text : List α) :
    ∀ c ∈ (splitLine charOf spliced text).2.head?, charOf c = '\n' := by
  induction text generalizing spliced with
  | nil => simp [splitLine]
  | cons c rest ih =>
      rw [splitLine]
      split
      · next isEnd =>
        intro d isHead
        rw [List.head?_cons, Option.mem_def, Option.some.injEq] at isHead
        rw [← isHead]
        exact isEnd.1
      · exact ih _

variable (charOf) in
/-- Read from a line comment, a text shows what stands behind the line. -/
theorem uncommented_line (spliced : Bool) (text : List α) :
    (if spliced then splice else line).uncommented charOf text =
      code.uncommented charOf (splitLine charOf spliced text).2 := by
  induction text generalizing spliced with
  | nil => cases spliced <;> rfl
  | cons c rest ih =>
      by_cases isEnd : charOf c = '\n' ∧ spliced = false
      · obtain ⟨isNewline, rfl⟩ := isEnd
        simp [splitLine, uncommented_cons, next, shows, shownInCode, behindCode, Quote.char,
          isNewline]
      · have hidden : (if spliced then splice else line).shows charOf c = [] := by
          cases spliced with
          | true => rfl
          | false => simpa [shows] using isEnd
        have goesOn : (if spliced then splice else line).next charOf c =
            if charOf c == '\\' then splice else line := by
          cases spliced with
          | true => simp [next]
          | false =>
              have notNewline : charOf c ≠ '\n' := by simpa using isEnd
              simp [next, notNewline]
        rw [uncommented_cons, hidden, List.nil_append, goesOn, ih, splitLine, if_neg isEnd]

section Filter

variable {p : α → Bool}

/-- Without the rest of a line a text shows the same exactly when that rest shows nothing and
does not change how the text behind it reads. -/
theorem uncommented_behind_iff (showsSlash : ∀ c, charOf c = '/' → p c = true) {text rest : List α}
    (distinct : (text ++ rest).Nodup) (newline : ∀ c ∈ rest.head?, charOf c = '\n') :
    (code.uncommented charOf (text ++ rest)).filter p = (code.uncommented charOf rest).filter p ↔
      (code.uncommented charOf text).filter p = [] ∧
        ((code.after charOf text).uncommented charOf rest).filter p =
          (code.uncommented charOf rest).filter p := by
  have whole : (code.uncommented charOf text).filter p =
      (code.shown charOf text).filter p ++ ((code.after charOf text).waiting).filter p := by
    rw [uncommented, List.filter_append]
  rw [uncommented_append, List.filter_append, whole, List.append_eq_nil_iff]
  constructor
  · intro same
    have apart : ∀ c ∈ text, c ∉ (code.uncommented charOf rest).filter p := by
      intro c inText shown
      rcases mem_uncommented (List.mem_of_mem_filter shown) with inRest | isWaiting
      · exact (List.nodup_append.mp distinct).2.2 c inText c inRest rfl
      · exact absurd isWaiting List.not_mem_nil
    have noneShown : (code.shown charOf text).filter p = [] := by
      rw [List.eq_nil_iff_forall_not_mem]
      intro c shown
      have inText : c ∈ text := by
        have isShown : c ∈ code.uncommented charOf text :=
          List.mem_append_left _ (List.mem_of_mem_filter shown)
        exact (mem_uncommented isShown).resolve_right List.not_mem_nil
      apply apart c inText
      rw [← same]
      exact List.mem_append_left _ shown
    have noneWaits : ((code.after charOf text).waiting).filter p = [] := by
      rw [List.eq_nil_iff_forall_not_mem]
      intro c isWaiting
      have waits := List.mem_of_mem_filter isWaiting
      obtain ⟨inText, isSlash⟩ := mem_waiting_after rfl waits
      apply apart c inText
      rw [← same]
      apply List.mem_append_right
      rw [List.mem_filter]
      refine ⟨?_, showsSlash c isSlash⟩
      cases isAfter : code.after charOf text with
      | slash first =>
          rw [isAfter, waiting, List.mem_singleton] at waits
          rw [waits]
          cases rest with
          | nil => exact List.mem_cons_self
          | cons d rest =>
              have isNewline := newline d rfl
              rw [uncommented_cons]
              simp [shows, isNewline]
      | _ =>
          rw [isAfter] at waits
          exact absurd waits List.not_mem_nil
    rw [noneShown, List.nil_append] at same
    exact ⟨⟨noneShown, noneWaits⟩, same⟩
  · rintro ⟨⟨noneShown, _⟩, same⟩
    rw [noneShown, List.nil_append, same]

end Filter

/-- In a literal. -/
def isLiteral : Reading α → Bool
  | literal _ => true
  | escape _ => true
  | _ => false

/-- Where nothing is shown no literal begins. -/
theorem isLiteral_after {p : α → Bool}
    (showsQuote : ∀ c quote, charOf c = Quote.char quote → p c = true)
    {reading : Reading α} (notLiteral : reading.isLiteral = false) {text : List α}
    (noneShown : (reading.shown charOf text).filter p = []) :
    (reading.after charOf text).isLiteral = false := by
  induction text generalizing reading with
  | nil => exact notLiteral
  | cons c text ih =>
      rw [shown, List.filter_append, List.append_eq_nil_iff] at noneShown
      apply ih _ noneShown.2
      have notQuote : c ∈ reading.shows charOf c → ∀ quote, charOf c ≠ Quote.char quote := by
        intro isShown quote isQuote
        have kept : c ∈ (reading.shows charOf c).filter p :=
          List.mem_filter.mpr ⟨isShown, showsQuote c quote isQuote⟩
        rw [noneShown.1] at kept
        exact absurd kept List.not_mem_nil
      have shownQuote : ∀ quote, charOf c = Quote.char quote → c ∈ shownInCode charOf c := by
        intro quote isQuote
        cases quote <;> simp [shownInCode, isQuote, Quote.char]
      have behind : (c ∈ shownInCode charOf c → c ∈ reading.shows charOf c) →
          (behindCode charOf c).isLiteral = false := by
        intro shownHere
        have noQuote : ∀ quote, charOf c ≠ Quote.char quote := fun quote isQuote =>
          notQuote (shownHere (shownQuote quote isQuote)) quote isQuote
        rw [behindCode, if_neg (noQuote .double), if_neg (noQuote .single)]
        split <;> rfl
      cases reading with
      | code => exact behind id
      | slash first =>
          simp only [next]
          split
          · rfl
          · split
            · rfl
            · next notSlash notStar =>
              apply behind
              intro inCode
              simp [shows, notSlash, notStar, inCode]
      | literal quote => cases notLiteral
      | escape quote => cases notLiteral
      | _ =>
          simp only [next]
          repeat' split
          all_goals rfl

/-! ## Readings of characters that carry more -/

section Map

variable {β : Type*} (f : α → β)

/-- A reading over other characters. -/
def map : Reading α → Reading β
  | code => code
  | slash first => slash (f first)
  | line => line
  | splice => splice
  | block => block
  | star => star
  | literal quote => literal quote
  | escape quote => escape quote

@[simp]
theorem map_code : (code : Reading α).map f = code := rfl

@[simp]
theorem map_slash (first : α) : (slash first).map f = slash (f first) := rfl

@[simp]
theorem map_line : (line : Reading α).map f = line := rfl

@[simp]
theorem map_splice : (splice : Reading α).map f = splice := rfl

@[simp]
theorem map_block : (block : Reading α).map f = block := rfl

@[simp]
theorem map_star : (star : Reading α).map f = star := rfl

@[simp]
theorem map_literal (quote : Quote) : (literal quote : Reading α).map f = literal quote := rfl

@[simp]
theorem map_escape (quote : Quote) : (escape quote : Reading α).map f = escape quote := rfl

variable {f}

theorem map_eq_code_iff {reading : Reading α} : reading.map f = code ↔ reading = code := by
  cases reading <;> simp

theorem map_eq_line_iff {reading : Reading α} : reading.map f = line ↔ reading = line := by
  cases reading <;> simp

theorem map_eq_block_iff {reading : Reading α} : reading.map f = block ↔ reading = block := by
  cases reading <;> simp

variable {charOf : β → Char}

theorem map_next (reading : Reading α) (c : α) :
    (reading.next (charOf ∘ f) c).map f = (reading.map f).next charOf (f c) := by
  have behind : (behindCode (charOf ∘ f) c).map f = behindCode charOf (f c) := by
    simp only [behindCode, Function.comp_apply, apply_ite (map f), map_slash, map_literal, map_code]
  cases reading with
  | code => exact behind
  | slash first =>
      rw [map_slash]
      simp only [next, Function.comp_apply, apply_ite (map f), map_line, map_block, behind]
  | line =>
      rw [map_line]
      simp only [next, Function.comp_apply, apply_ite (map f), map_code, map_splice, map_line]
  | splice =>
      rw [map_splice]
      simp only [next, Function.comp_apply, apply_ite (map f), map_splice, map_line]
  | block =>
      rw [map_block]
      simp only [next, Function.comp_apply, apply_ite (map f), map_star, map_block]
  | star =>
      rw [map_star]
      simp only [next, Function.comp_apply, apply_ite (map f), map_code, map_star, map_block]
  | literal quote =>
      rw [map_literal]
      simp only [next, Function.comp_apply, apply_ite (map f), map_code, map_escape, map_literal]
  | escape quote => rfl

theorem map_after (reading : Reading α) (text : List α) :
    (reading.after (charOf ∘ f) text).map f = (reading.map f).after charOf (text.map f) := by
  induction text generalizing reading with
  | nil => rfl
  | cons c text ih => rw [after_cons, ih, map_next, List.map_cons, after_cons]

end Map

end Reading

/-- White space. -/
def isBlank (c : Char) : Bool := [' ', '\t', '\n', '\r', '\x0b', '\x0c'].contains c

end Hecaton.Library
