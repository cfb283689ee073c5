/-
  Connection/KeywordValue.lean --- connection strings as libpq reads them.

  A connection string is a sequence of `key = value` pairs.  Whitespace separates pairs and
  may stand around the `=`; a value may be quoted; in a value, quoted or not, a backslash
  stands for the character behind it; the last occurrence of a key wins.  This module is
  the grammar of `conninfo_parse`, one character at a time, and has no part of the
  repository in it.
-/
import Upq.Foundation.Machine

set_option autoImplicit false

namespace Upq.Conninfo

open Upq.Foundation

/-- The characters of a string. -/
abbrev Text := List Char

/-- The pairs of a connection string, in order. -/
abbrev Settings := List (Text × Text)

/-! ## The grammar -/

/-- `isspace` -/
def isSpace (c : Char) : Bool :=
  c = ' ' || c = '\t' || c = '\n' || c = '\x0b' || c = '\x0c' || c = '\r'

/-- Where the reader is: between pairs, in a key, behind a key, behind the `=`, in a value,
behind a backslash in a value. -/
inductive Place where
  | gap
  | name (key : Text)
  | afterName (key : Text)
  | afterEq (key : Text)
  | bare (key value : Text)
  | bareEscape (key value : Text)
  | quoted (key value : Text)
  | quotedEscape (key value : Text)
  deriving DecidableEq, Repr

structure Reader where
  stored : Settings
  place : Place
  deriving DecidableEq, Repr

def Reader.start : Reader := ⟨[], .gap⟩

/-- The next character; no string holds a NUL. -/
def Reader.next (r : Reader) (c : Char) : Option Reader :=
  if c = '\x00' then none
  else
    match r.place with
    | .gap =>
        if isSpace c then some r
        else if c = '=' then some ⟨r.stored, .afterEq []⟩
        else some ⟨r.stored, .name [c]⟩
    | .name key =>
        if c = '=' then some ⟨r.stored, .afterEq key⟩
        else if isSpace c then some ⟨r.stored, .afterName key⟩
        else some ⟨r.stored, .name (key ++ [c])⟩
    | .afterName key =>
        if isSpace c then some r
        else if c = '=' then some ⟨r.stored, .afterEq key⟩
        else none
    | .afterEq key =>
        if isSpace c then some r
        else if c = '\'' then some ⟨r.stored, .quoted key []⟩
        else if c = '\\' then some ⟨r.stored, .bareEscape key []⟩
        else some ⟨r.stored, .bare key [c]⟩
    | .bare key value =>
        if isSpace c then some ⟨r.stored ++ [(key, value)], .gap⟩
        else if c = '\\' then some ⟨r.stored, .bareEscape key value⟩
        else some ⟨r.stored, .bare key (value ++ [c])⟩
    | .bareEscape key value => some ⟨r.stored, .bare key (value ++ [c])⟩
    | .quoted key value =>
        if c = '\\' then some ⟨r.stored, .quotedEscape key value⟩
        else if c = '\'' then some ⟨r.stored ++ [(key, value)], .gap⟩
        else some ⟨r.stored, .quoted key (value ++ [c])⟩
    | .quotedEscape key value => some ⟨r.stored, .quoted key (value ++ [c])⟩

/-- The characters of a text, one after the other. -/
def Reader.read (r : Reader) (text : Text) : Option Reader := text.foldlM Reader.next r

/-- The pairs at the end of the string; a key without `=` and an open quote are errors. -/
def Reader.finish (r : Reader) : Option Settings :=
  match r.place with
  | .gap => some r.stored
  | .afterEq key => some (r.stored ++ [(key, [])])
  | .bare key value | .bareEscape key value => some (r.stored ++ [(key, value)])
  | .name _ | .afterName _ | .quoted _ _ | .quotedEscape _ _ => none

/-- What a connection string says, if it is one. -/
def settings (text : Text) : Option Settings := (Reader.start.read text).bind Reader.finish

/-- The value of a key: the last one given. -/
def lookup (s : Settings) (key : Text) : Option Text := s.reverse.lookup key

/-! ## Reading on -/

theorem Reader.read_append (r : Reader) (front text : Text) :
    r.read (front ++ text) = (r.read front).bind fun mid => mid.read text :=
  List.foldlM_append

theorem Reader.read_cons (r : Reader) (c : Char) (text : Text) :
    r.read (c :: text) = (r.next c).bind fun mid => mid.read text :=
  rfl

@[simp] theorem Reader.read_nil (r : Reader) : r.read [] = some r := rfl

theorem lookup_append_singleton (s : Settings) (key value other : Text) :
    lookup (s ++ [(key, value)]) other = if other = key then some value else lookup s other := by
  simp only [lookup, List.reverse_append, List.reverse_singleton, List.singleton_append,
    List.lookup_cons]
  by_cases h : other = key
  · simp [h]
  · rw [beq_false_of_ne h, if_neg h]

/-- What is checked of every character of a fixed text holds of all of them. -/
theorem forall_of_all {p : Char → Prop} [DecidablePred p] {text : Text}
    (h : (text.all fun c => decide (p c)) = true) : ∀ c ∈ text, p c :=
  fun c hc => of_decide_eq_true (List.all_eq_true.mp h c hc)

/-- A character that can stand in a key: no whitespace, no `=` and no NUL. -/
def Plain (c : Char) : Prop := isSpace c = false ∧ c ≠ '=' ∧ c ≠ '\x00'

instance : DecidablePred Plain := fun _ => inferInstanceAs (Decidable (_ ∧ _))

section

variable {s : Settings} {key value : Text}

theorem Reader.read_name {more : Text} (h : ∀ c ∈ more, Plain c) :
    (⟨s, .name key⟩ : Reader).read more = some ⟨s, .name (key ++ more)⟩ := by
  have hnext : ∀ c ∈ more, ∀ held,
      (⟨s, .name held⟩ : Reader).next c = some ⟨s, .name (held ++ [c])⟩ := by
    intro c hc held
    obtain ⟨hspace, heq, hnul⟩ := h c hc
    simp [Reader.next, hspace, heq, hnul]
  exact foldlM_of_hold hnext key

/-- A key and the `=`. -/
theorem Reader.read_key (hne : key ≠ []) (h : ∀ c ∈ key, Plain c) :
    (⟨s, .gap⟩ : Reader).read (key ++ ['=']) = some ⟨s, .afterEq key⟩ := by
  cases key with
  | nil => exact absurd rfl hne
  | cons c key =>
      obtain ⟨hspace, heq, hnul⟩ := h c List.mem_cons_self
      have hfirst : (⟨s, .gap⟩ : Reader).next c = some ⟨s, .name [c]⟩ := by
        simp [Reader.next, hspace, heq, hnul]
      have hrest : (⟨s, .name [c]⟩ : Reader).read key = some ⟨s, .name (c :: key)⟩ :=
        Reader.read_name fun d hd => h d (List.mem_cons_of_mem c hd)
      rw [List.cons_append, Reader.read_cons, hfirst, Option.bind_some, Reader.read_append, hrest]
      rfl

/-- A character that stands for itself in an unquoted value. -/
def PlainValue (c : Char) : Prop := isSpace c = false ∧ c ≠ '\'' ∧ c ≠ '\\' ∧ c ≠ '\x00'

instance : DecidablePred PlainValue := fun _ => inferInstanceAs (Decidable (_ ∧ _))

theorem Reader.read_bare {more : Text} (h : ∀ c ∈ more, PlainValue c) :
    (⟨s, .bare key value⟩ : Reader).read more = some ⟨s, .bare key (value ++ more)⟩ := by
  have hnext : ∀ c ∈ more, ∀ held,
      (⟨s, .bare key held⟩ : Reader).next c = some ⟨s, .bare key (held ++ [c])⟩ := by
    intro c hc held
    obtain ⟨hspace, -, hslash, hnul⟩ := h c hc
    simp [Reader.next, hspace, hslash, hnul]
  exact foldlM_of_hold hnext value

/-- An unquoted value behind the `=`. -/
theorem Reader.read_value (hne : value ≠ []) (h : ∀ c ∈ value, PlainValue c) :
    (⟨s, .afterEq key⟩ : Reader).read value = some ⟨s, .bare key value⟩ := by
  cases value with
  | nil => exact absurd rfl hne
  | cons c value =>
      obtain ⟨hspace, hquote, hslash, hnul⟩ := h c List.mem_cons_self
      have hfirst : (⟨s, .afterEq key⟩ : Reader).next c = some ⟨s, .bare key [c]⟩ := by
        simp [Reader.next, hspace, hquote, hslash, hnul]
      rw [Reader.read_cons, hfirst, Option.bind_some,
        Reader.read_bare fun d hd => h d (List.mem_cons_of_mem c hd), List.singleton_append]

end

end Upq.Conninfo
