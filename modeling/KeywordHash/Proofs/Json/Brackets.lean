/-
Module: KeywordHash.Proofs.Json.Brackets
Layer: Proofs
Purpose: Arrays and objects that are written are read back, if their parts are. What is still to be read
  of the parts (`ahead`) is written down as a list of bytes that follows the layout; one step of a
  reader takes the first part off it, and the readers of all parts take the steps one after the other.
Imports: KeywordHash.Proofs.Json.Number, KeywordHash.Proofs.Json.Text
Trusted boundary: none
Main exports: ahead, bytes_bracketed, nextElement_ahead, reads_elements, reads_exactly, Accepts,
  Collects, membersFrom_ahead, reads_record, length_lt_array, length_item_le_array,
  length_member_le_object
Open obligations: none
-/
import KeywordHash.Proofs.Json.Number
import KeywordHash.Proofs.Json.Text

namespace KeywordHash.Json

/-! ### Parts that are still to be read -/

/-- The bytes of the parts that are still to be read, with the closing mark behind them. -/
def ahead (closing : Char) (depth : Nat) : Bool → List String → List UInt8
  | true, [] => [code closing]
  | false, [] => Text.bytes (Layout.newLine depth) ++ [code closing]
  | true, item :: rest =>
      Text.bytes (Layout.newLine (depth + 1)) ++ (Text.bytes item ++ ahead closing depth false rest)
  | false, item :: rest =>
      code ',' :: (Text.bytes (Layout.newLine (depth + 1))
        ++ (Text.bytes item ++ ahead closing depth false rest))

theorem bytes_newLine (depth : Nat) :
    Text.bytes (Layout.newLine depth) = code '\n' :: List.replicate (2 * depth) (code ' ') := by
  have ascii : ∀ c ∈ '\n' :: List.replicate (2 * depth) ' ', c.toNat < 128 := by
    rw [List.forall_mem_cons]
    refine ⟨by decide, fun c hc => ?_⟩
    rw [List.eq_of_mem_replicate hc]
    decide
  rw [Layout.newLine, Text.bytes_ofList_of_ascii ascii, List.map_cons, List.map_replicate]

theorem blank_newLine (depth : Nat) : Blank (Text.bytes (Layout.newLine depth)) := by
  intro b hb
  rw [bytes_newLine] at hb
  rcases List.mem_cons.1 hb with rfl | hb
  · decide
  · rw [List.eq_of_mem_replicate hb]
    decide

theorem bytes_intercalate (mark : Char) (depth : Nat) (item : String) (items : List String) :
    Text.bytes (String.intercalate "," ((item :: items).map (Layout.newLine (depth + 1) ++ ·)))
        ++ (Text.bytes (Layout.newLine depth) ++ [code mark])
      = ahead mark depth true (item :: items) := by
  have comma : Text.bytes "," = [code ','] := by decide
  induction items generalizing item with
  | nil =>
      rw [List.map_cons, List.map_nil, String.intercalate_singleton, Text.bytes_append,
        List.append_assoc, ahead, ahead]
  | cons second items ih =>
      have hRest := ih second
      rw [List.map_cons] at hRest ⊢
      rw [List.map_cons, String.intercalate_cons_cons, Text.bytes_append, Text.bytes_append, comma,
        Text.bytes_append, List.append_assoc, hRest, ahead, ahead, ahead]
      simp only [List.append_assoc, List.singleton_append]

/-- Written parts begin with an opening mark, and all of them are ahead. -/
theorem bytes_bracketed {opening closing : String} {mark : Char}
    (hMark : Text.bytes closing = [code mark]) (depth : Nat) (items : List String) :
    Text.bytes (Layout.bracketed opening closing depth items)
      = Text.bytes opening ++ ahead mark depth true items := by
  rw [Layout.bracketed]
  cases items with
  | nil =>
      rw [if_pos List.isEmpty_nil, Text.bytes_append, hMark]
      rfl
  | cons item items =>
      rw [if_neg (by simp), Text.bytes_append, Text.bytes_append, Text.bytes_append, hMark,
        List.append_assoc, List.append_assoc, bytes_intercalate]

theorem bytes_array (depth : Nat) (elements : List String) :
    Text.bytes (Layout.array depth elements) = code '[' :: ahead ']' depth true elements := by
  have opening : Text.bytes "[" = [code '['] := by decide
  rw [Layout.array, bytes_bracketed (show Text.bytes "]" = [code ']'] by decide), opening]
  rfl

/-- A member of an object as it is written. -/
def memberText (entry : String × String) : String :=
  Layout.text entry.1 ++ ": " ++ entry.2

theorem bytes_object (depth : Nat) (entries : List (String × String)) :
    Text.bytes (Layout.object depth entries)
      = code '\x7b' :: ahead '\x7d' depth true (entries.map memberText) := by
  have opening : Text.bytes "\x7b" = [code '\x7b'] := by decide
  rw [Layout.object, bytes_bracketed (show Text.bytes "\x7d" = [code '\x7d'] by decide), opening]
  rfl

/-- What is ahead ends the value in front of it. -/
theorem delimited_ahead (closing : Char) (depth : Nat) (items : List String) (rest : List UInt8) :
    Delimited (ahead closing depth false items ++ rest) := by
  intro b hb
  cases items with
  | nil =>
      rw [ahead, bytes_newLine] at hb
      cases hb
      exact Or.inl (by decide)
  | cons item items =>
      cases hb
      exact Or.inr rfl

section

variable {closing : Char} (solid : isBlank (code closing) = false)

include solid in
theorem nextPart_end (depth : Nat) (isFirst : Bool) (rest : List UInt8) :
    nextPart closing isFirst (ahead closing depth isFirst [] ++ rest)
      = .ok (none, code closing :: rest) := by
  have hPeek : peek (ahead closing depth isFirst [] ++ rest)
      = .ok (code closing, code closing :: rest) := by
    cases isFirst with
    | true => exact peek_cons solid rest
    | false =>
        rw [ahead, List.append_assoc, peek_append _ _ (blank_newLine depth)]
        exact peek_cons solid rest
  rw [nextPart, hPeek, ok_bind]
  exact if_pos rfl

include solid in
theorem punctuation_end (depth : Nat) (isFirst : Bool) (rest : List UInt8) :
    punctuation closing (ahead closing depth isFirst [] ++ rest) = .ok rest := by
  cases isFirst with
  | true => exact punctuation_cons solid rest
  | false =>
      rw [ahead, List.append_assoc]
      exact punctuation_append solid (blank_newLine depth) rest

/-- The next part is the first one ahead. -/
theorem nextPart_ahead (ne_comma : code closing ≠ code ',') {item : String} {b : UInt8}
    {tail : List UInt8} (hItem : Text.bytes item = b :: tail) (b_solid : isBlank b = false)
    (b_ne : b ≠ code closing) (depth : Nat) (isFirst : Bool) (items : List String)
    (rest : List UInt8) :
    nextPart closing isFirst (ahead closing depth isFirst (item :: items) ++ rest)
      = .ok (some b, Text.bytes item ++ (ahead closing depth false items ++ rest)) := by
  have hPeek : peek (Text.bytes (Layout.newLine (depth + 1))
        ++ (Text.bytes item ++ (ahead closing depth false items ++ rest)))
      = .ok (b, Text.bytes item ++ (ahead closing depth false items ++ rest)) := by
    rw [peek_append _ _ (blank_newLine (depth + 1)), hItem, List.cons_append]
    exact peek_cons b_solid _
  cases isFirst with
  | true =>
      rw [nextPart, ahead, List.append_assoc, List.append_assoc, hPeek, ok_bind]
      simp only [if_neg b_ne]
      rfl
  | false =>
      rw [nextPart, ahead, List.cons_append, List.append_assoc, List.append_assoc,
        peek_cons (by decide), ok_bind]
      simp only [if_neg ne_comma.symm]
      rw [punctuation_cons (by decide), ok_bind, hPeek, ok_bind]
      simp only [if_neg b_ne]
      rfl

end

/-! ### Arrays -/

section

variable {α : Type} {reader : Reader α}

theorem nextElement_end (depth : Nat) (isFirst : Bool) (rest : List UInt8) :
    nextElement reader isFirst (ahead ']' depth isFirst [] ++ rest)
      = .ok (none, code ']' :: rest) := by
  rw [nextElement, nextPart_end (by decide), ok_bind]
  rfl

/-- The next element is the first one ahead. -/
theorem nextElement_ahead {item : String} {a : α} (reads : Reads reader item a) (depth : Nat)
    (isFirst : Bool) (items : List String) (rest : List UInt8) :
    nextElement reader isFirst (ahead ']' depth isFirst (item :: items) ++ rest)
      = .ok (some a, ahead ']' depth false items ++ rest) := by
  obtain ⟨b, tail, hItem, b_solid, b_ne⟩ := reads.begins
  rw [nextElement, nextPart_ahead (by decide) hItem b_solid b_ne, ok_bind]
  simp only
  rw [reads.read _ (delimited_ahead ']' depth items rest), ok_bind]
  rfl

variable {write : α → String} {values : List α}

/-- All elements ahead are read. The induction is on the elements; each of them uses up one of the
    limit. -/
theorem elementsAfter_ahead (reads : ∀ a ∈ values, Reads reader (write a) a) {limit : Nat}
    (enough : values.length < limit) (depth : Nat) (isFirst : Bool) (former : List α)
    (rest : List UInt8) :
    elementsAfter reader former limit isFirst (ahead ']' depth isFirst (values.map write) ++ rest)
      = .ok (former.reverse ++ values, code ']' :: rest) := by
  induction values generalizing limit isFirst former with
  | nil =>
      obtain ⟨limit, rfl⟩ := Nat.exists_eq_add_one_of_ne_zero (Nat.ne_of_gt enough)
      rw [List.map_nil, elementsAfter, nextElement_end, List.append_nil]
  | cons a values ih =>
      obtain ⟨limit, rfl⟩ := Nat.exists_eq_add_one_of_ne_zero (Nat.ne_of_gt (Nat.zero_lt_of_lt enough))
      rw [List.forall_mem_cons] at reads
      rw [List.map_cons, elementsAfter, nextElement_ahead reads.1]
      simp only
      rw [ih reads.2 (Nat.lt_of_succ_lt_succ enough), List.reverse_cons, List.append_assoc,
        List.singleton_append]

/-- As many elements as there are ahead are read, and the closing mark is left. -/
theorem exactly_ahead (reads : ∀ a ∈ values, Reads reader (write a) a) (depth : Nat)
    (isFirst : Bool) (rest : List UInt8) :
    exactly reader values.length isFirst (ahead ']' depth isFirst (values.map write) ++ rest)
      = .ok (values, ahead ']' depth (isFirst && values.isEmpty) [] ++ rest) := by
  induction values generalizing isFirst with
  | nil => rw [List.isEmpty_nil, Bool.and_true]; rfl
  | cons a values ih =>
      rw [List.forall_mem_cons] at reads
      rw [List.map_cons, List.length_cons, exactly, element, nextElement_ahead reads.1, ok_bind]
      simp only [pure, Except.pure, ok_bind]
      rw [ih reads.2, ok_bind]
      simp

theorem skipsBlanks_array (content : Reader α) : SkipsBlanks (array content) :=
  skipsBlanks_of_peek _

/-- An array is read back if what is ahead behind its opening mark is. -/
theorem reads_array {elements : List String} {depth : Nat} {a : α}
    (h : ∀ rest, ∃ left, reader (ahead ']' depth true elements ++ rest) = .ok (a, left)
      ∧ punctuation ']' left = .ok rest) :
    Reads (array reader) (Layout.array depth elements) a where
  skips := skipsBlanks_array reader
  begins := ⟨code '[', _, bytes_array depth elements, by decide, by decide⟩
  read := by
    intro rest _
    obtain ⟨left, hContent, hClosing⟩ := h rest
    rw [bytes_array, List.cons_append, array, peek_cons (by decide), ok_bind]
    simp only [if_true]
    rw [hContent, ok_bind, hClosing, ok_bind]
    rfl

theorem reads_elements (reads : ∀ a ∈ values, Reads reader (write a) a) {limit : Nat}
    (enough : values.length < limit) (depth : Nat) :
    Reads (array (elements limit reader)) (Layout.array depth (values.map write)) values := by
  apply reads_array
  intro rest
  exact ⟨_, elementsAfter_ahead reads enough depth true [] rest, punctuation_cons (by decide) rest⟩

theorem reads_exactly (reads : ∀ a ∈ values, Reads reader (write a) a) (depth : Nat) :
    Reads (array (exactly reader values.length true)) (Layout.array depth (values.map write))
      values := by
  apply reads_array
  intro rest
  exact ⟨_, exactly_ahead reads depth true rest, punctuation_end (by decide) depth _ rest⟩

end

/-! ### Objects -/

section

variable {σ : Type} (member : String → σ → Reader σ)

/-- A written value is read behind its key and takes one state to another. -/
def Accepts (key written : String) (state next : σ) : Prop :=
  ∀ rest, Delimited rest →
    member key state (code ':' :: code ' ' :: (Text.bytes written ++ rest)) = .ok (next, rest)

/-- Written members take one state to another when they are read in their order. -/
inductive Collects : σ → List (String × String) → σ → Prop where
  | nil (state : σ) : Collects state [] state
  | cons {state next last : σ} {key written : String} {entries : List (String × String)}
      (accepts : Accepts member key written state next) (collects : Collects next entries last) :
      Collects state ((key, written) :: entries) last

theorem bytes_memberText (key written : String) :
    Text.bytes (memberText (key, written)) = code '"' :: (textContent key
      ++ code '"' :: code ':' :: code ' ' :: Text.bytes written) := by
  have colon : Text.bytes ": " = [code ':', code ' '] := by decide
  rw [memberText, Text.bytes_append, Text.bytes_append, bytes_text, colon]
  simp

theorem nextKey_end (depth : Nat) (isFirst : Bool) (rest : List UInt8) :
    nextKey isFirst (ahead '\x7d' depth isFirst [] ++ rest) = .ok (none, code '\x7d' :: rest) := by
  rw [nextKey, nextPart_end (by decide), ok_bind]
  rfl

/-- The next key is that of the first member ahead. -/
theorem nextKey_ahead (key written : String) (depth : Nat) (isFirst : Bool) (items : List String)
    (rest : List UInt8) :
    nextKey isFirst (ahead '\x7d' depth isFirst (memberText (key, written) :: items) ++ rest)
      = .ok (some key, code ':' :: code ' ' :: (Text.bytes written
          ++ (ahead '\x7d' depth false items ++ rest))) := by
  rw [nextKey, nextPart_ahead (by decide) (bytes_memberText key written) (by decide) (by decide),
    ok_bind, bytes_memberText]
  simp only [if_true, List.cons_append, List.append_assoc, List.drop_succ_cons, List.drop_zero]
  rw [textBody_content, ok_bind]
  rfl

variable {member} {start last : σ} {entries : List (String × String)}

/-- All members ahead are read. The induction is on the members; each uses up one of the limit. -/
theorem membersFrom_ahead (collects : Collects member start entries last) {limit : Nat}
    (enough : entries.length < limit) (depth : Nat) (isFirst : Bool) (rest : List UInt8) :
    membersFrom member limit start isFirst
        (ahead '\x7d' depth isFirst (entries.map memberText) ++ rest)
      = .ok (last, code '\x7d' :: rest) := by
  induction collects generalizing limit isFirst with
  | nil state =>
      obtain ⟨limit, rfl⟩ := Nat.exists_eq_add_one_of_ne_zero (Nat.ne_of_gt enough)
      rw [List.map_nil, membersFrom, nextKey_end]
  | cons accepts _ ih =>
      obtain ⟨limit, rfl⟩ := Nat.exists_eq_add_one_of_ne_zero (Nat.ne_of_gt (Nat.zero_lt_of_lt enough))
      rw [List.map_cons, membersFrom, nextKey_ahead]
      simp only
      rw [accepts _ (delimited_ahead '\x7d' depth _ rest)]
      simp only
      exact ih (Nat.lt_of_succ_lt_succ enough) false

theorem skipsBlanks_record {α : Type} (object fields : Reader α) :
    SkipsBlanks (record object fields) :=
  skipsBlanks_of_peek _

/-- A record is read back if its members are. -/
theorem reads_record {α : Type} {object fields : Reader α} {a : α} {depth : Nat}
    (h : ∀ rest, object (ahead '\x7d' depth true (entries.map memberText) ++ rest)
      = .ok (a, code '\x7d' :: rest)) :
    Reads (record object fields) (Layout.object depth entries) a where
  skips := skipsBlanks_record object fields
  begins := ⟨code '\x7b', _, bytes_object depth entries, by decide, by decide⟩
  read := by
    intro rest _
    rw [bytes_object, List.cons_append, record, peek_cons (by decide), ok_bind]
    simp only [if_true]
    rw [h rest, ok_bind]
    simp only
    rw [punctuation_cons (by decide), ok_bind]
    rfl

end

/-! ### Lengths

Each part takes some bytes, so a number that bounds the bytes of a document bounds the parts of every
array and every object in it.
-/

theorem length_lt_ahead (closing : Char) (depth : Nat) (isFirst : Bool) (items : List String) :
    items.length < (ahead closing depth isFirst items).length := by
  induction items generalizing isFirst with
  | nil => cases isFirst <;> simp [ahead]
  | cons item items ih =>
      have := ih false
      cases isFirst with
      | true =>
          rw [ahead, bytes_newLine]
          simp only [List.length_cons, List.length_append]
          omega
      | false =>
          simp only [ahead, List.length_cons, List.length_append]
          omega

theorem length_item_le_ahead (closing : Char) (depth : Nat) (isFirst : Bool) {items : List String}
    {item : String} (h : item ∈ items) :
    (Text.bytes item).length ≤ (ahead closing depth isFirst items).length := by
  induction items generalizing isFirst with
  | nil => cases h
  | cons first items ih =>
      have : (Text.bytes item).length
          ≤ (Text.bytes first ++ ahead closing depth false items).length := by
        rw [List.length_append]
        rcases List.mem_cons.1 h with rfl | h
        · exact Nat.le_add_right _ _
        · exact Nat.le_add_left_of_le (ih false h)
      cases isFirst with
      | true =>
          rw [ahead, List.length_append]
          exact Nat.le_add_left_of_le this
      | false =>
          rw [ahead, List.length_cons, List.length_append]
          omega

theorem length_lt_array (depth : Nat) (elements : List String) :
    elements.length < (Text.bytes (Layout.array depth elements)).length := by
  rw [bytes_array]
  exact Nat.lt_succ_of_lt (length_lt_ahead ']' depth true elements)

theorem length_item_le_array (depth : Nat) {elements : List String} {item : String}
    (h : item ∈ elements) :
    (Text.bytes item).length ≤ (Text.bytes (Layout.array depth elements)).length := by
  rw [bytes_array]
  exact Nat.le_succ_of_le (length_item_le_ahead ']' depth true h)

theorem length_lt_object (depth : Nat) (entries : List (String × String)) :
    entries.length < (Text.bytes (Layout.object depth entries)).length := by
  have := length_lt_ahead '\x7d' depth true (entries.map memberText)
  rw [List.length_map] at this
  rw [bytes_object]
  exact Nat.lt_succ_of_lt this

theorem length_member_le_object (depth : Nat) {entries : List (String × String)}
    {key written : String} (h : (key, written) ∈ entries) :
    (Text.bytes written).length ≤ (Text.bytes (Layout.object depth entries)).length := by
  have member_le := length_item_le_ahead '\x7d' depth true (List.mem_map_of_mem (f := memberText) h)
  rw [memberText, Text.bytes_append, List.length_append] at member_le
  rw [bytes_object]
  exact Nat.le_succ_of_le (Nat.le_trans (Nat.le_add_left _ _) member_le)

end KeywordHash.Json
