/-
  Notify/Ident.lean --- the channel names of LISTEN and UNLISTEN.

  Source: `include/upq/PgNotificationMultiplexer.h`, `is_simple_ident`,
  `quote_ident_channel` and `statement`; `include/upq/PgNotificationListener.h`,
  `quote_ident_strict`.

  Next to the code stands as much of the server's reading of a statement as these texts
  need: an unquoted identifier is folded to lower case and must not be a reserved word, a
  quoted one stands for its text with doubled quotes halved.  A `Char` is a byte.

  `quote_ident_channel` leaves the quotes out of a name of lower-case letters, digits and
  underscores.  That is right for all such names but the reserved words
  (`channel_named_iff`).
-/
import Upq.Foundation.Machine

set_option autoImplicit false

namespace Upq.Notify.Ident

open Upq.Foundation

/-! ## The code -/

def isLower (c : Char) : Bool := 'a' ≤ c && c ≤ 'z'

def isDigit (c : Char) : Bool := '0' ≤ c && c ≤ '9'

/-- `is_simple_ident` -/
def isSimpleIdent : List Char → Bool
  | [] => false
  | c₀ :: rest => (isLower c₀ || c₀ = '_') && rest.all fun c => isLower c || isDigit c || c = '_'

/-- The loop over the characters of `quote_ident_channel` and `quote_ident_strict`. -/
def doubleQuotes (s : List Char) : List Char :=
  s.flatMap fun c => if c = '"' then ['"', c] else [c]

def quoted (s : List Char) : List Char := '"' :: (doubleQuotes s ++ ['"'])

/-- `quote_ident_channel` -/
def quoteIdentChannel (ch : List Char) : List Char := if isSimpleIdent ch then ch else quoted ch

/-- `quote_ident_strict` -/
def quoteIdentStrict (ident : List Char) : Option (List Char) :=
  if ident = [] then none
  else if '\x00' ∈ ident then none
  else some (quoted ident)

/-- `statement` -/
def statement (listen : Bool) (channel : List Char) : List Char :=
  (if listen then "LISTEN ".toList else "UNLISTEN ".toList) ++ quoteIdentChannel channel ++ [';']

/-! ## The server's reading -/

/-- Whitespace between tokens. -/
def isSpace (c : Char) : Bool :=
  c = ' ' || c = '\t' || c = '\n' || c = '\r' || c = '\x0b' || c = '\x0c'

def isUpper (c : Char) : Bool := 'A' ≤ c && c ≤ 'Z'

/-- The first character of an unquoted identifier. -/
def identStart (c : Char) : Bool := isLower c || isUpper c || c = '_' || '\x80' ≤ c

def identCont (c : Char) : Bool := identStart c || isDigit c || c = '$'

/-- Case folding. -/
def fold (c : Char) : Char := if isUpper c then Char.ofNat (c.toNat + 32) else c

/-- `NAMEDATALEN - 1` -/
def maxName : Nat := 63

inductive Token where
  | word (name : List Char)
  | delimited (name : List Char)
  | symbol (c : Char)
  deriving DecidableEq, Repr

/-- Where the scanner is: between tokens, in an identifier, in a quoted one, behind a quote
in a quoted one. -/
inductive Place where
  | idle
  | word (name : List Char)
  | quoted (name : List Char)
  | quote (name : List Char)
  deriving DecidableEq, Repr

structure Scanner where
  tokens : List Token
  place : Place
  deriving DecidableEq, Repr

/-- A character between tokens. -/
def Scanner.fromIdle (tokens : List Token) (c : Char) : Scanner :=
  if isSpace c then ⟨tokens, .idle⟩
  else if c = '"' then ⟨tokens, .quoted []⟩
  else if identStart c then ⟨tokens, .word [fold c]⟩
  else ⟨tokens ++ [.symbol c], .idle⟩

/-- The next character; an empty quoted identifier is an error. -/
def Scanner.next (s : Scanner) (c : Char) : Option Scanner :=
  if c = '\x00' then none
  else
    match s.place with
    | .idle => some (fromIdle s.tokens c)
    | .word name =>
        if identCont c then some ⟨s.tokens, .word (name ++ [fold c])⟩
        else some (fromIdle (s.tokens ++ [.word (name.take maxName)]) c)
    | .quoted name =>
        if c = '"' then some ⟨s.tokens, .quote name⟩
        else some ⟨s.tokens, .quoted (name ++ [c])⟩
    | .quote name =>
        if c = '"' then some ⟨s.tokens, .quoted (name ++ ['"'])⟩
        else if name = [] then none
        else some (fromIdle (s.tokens ++ [.delimited (name.take maxName)]) c)

def Scanner.finish (s : Scanner) : Option (List Token) :=
  match s.place with
  | .idle => some s.tokens
  | .word name => some (s.tokens ++ [.word (name.take maxName)])
  | .quoted _ => none
  | .quote name => if name = [] then none else some (s.tokens ++ [.delimited (name.take maxName)])

def Scanner.scan (s : Scanner) (text : List Char) : Option Scanner := text.foldlM Scanner.next s

/-- The tokens of a text. -/
def tokens (text : List Char) : Option (List Token) :=
  (Scanner.scan ⟨[], .idle⟩ text).bind Scanner.finish

/-- The name a token stands for: `ColId` of the grammar. -/
def Token.colId (reserved : List Char → Bool) : Token → Option (List Char)
  | .word name => if reserved name then none else some name
  | .delimited name => some name
  | .symbol _ => none

/-- The identifier a text is. -/
def identifier (reserved : List Char → Bool) (text : List Char) : Option (List Char) :=
  match tokens text with
  | some [t] => t.colId reserved
  | _ => none

inductive Command where
  | listen (channel : List Char)
  | unlisten (channel : List Char)
  deriving DecidableEq, Repr

/-- The one command a text is. -/
def command (reserved : List Char → Bool) (text : List Char) : Option Command :=
  match tokens text with
  | some [.word verb, name, .symbol ';'] =>
      if verb = "listen".toList then (name.colId reserved).map .listen
      else if verb = "unlisten".toList then (name.colId reserved).map .unlisten
      else none
  | _ => none

/-! ## Characters of a simple name -/

/-- A character that can stand in a simple name. -/
def isSimple (c : Char) : Bool := isLower c || isDigit c || c = '_'

/-- Different ranges have no character in common. -/
theorem not_between {c lo hi lo' hi' : Char} (hgap : hi < lo' ∨ hi' < lo)
    (h : (lo ≤ c && c ≤ hi) = true) : (lo' ≤ c && c ≤ hi') = false := by
  rw [Bool.and_eq_true, decide_eq_true_eq, decide_eq_true_eq] at h
  rw [Bool.and_eq_false_iff, decide_eq_false_iff_not, decide_eq_false_iff_not]
  rcases hgap with hgap | hgap
  · exact .inl fun hlo => absurd (Char.le_trans hlo h.2) (Char.not_le.mpr hgap)
  · exact .inr fun hhi => absurd (Char.le_trans h.1 hhi) (Char.not_le.mpr hgap)

theorem isUpper_of_isSimple {c : Char} (h : isSimple c = true) : isUpper c = false := by
  rw [isSimple, Bool.or_eq_true, Bool.or_eq_true, decide_eq_true_eq] at h
  rcases h with (h | h) | rfl
  · exact not_between (.inr (by decide)) h
  · exact not_between (.inl (by decide)) h
  · decide

/-- Such a character belongs to an identifier, and folding leaves it. -/
theorem identCont_of_isSimple {c : Char} (h : isSimple c = true) :
    c ≠ '\x00' ∧ identCont c = true ∧ fold c = c := by
  refine ⟨?_, ?_, ?_⟩
  · rintro rfl
    exact absurd h (by decide)
  · rw [isSimple, Bool.or_eq_true, Bool.or_eq_true] at h
    rcases h with (h | h) | h <;> simp [identCont, identStart, h]
  · rw [fold, isUpper_of_isSimple h]
    rfl

theorem identStart_of_isLower {c : Char} (h : (isLower c || c = '_') = true) :
    isSimple c = true ∧ isSpace c = false ∧ c ≠ '"' ∧ identStart c = true := by
  refine ⟨?_, ?_, ?_, ?_⟩
  · rw [Bool.or_eq_true] at h
    rcases h with h | h <;> simp [isSimple, h]
  · refine Bool.eq_false_iff.mpr fun hc => ?_
    simp only [isSpace, Bool.or_eq_true, decide_eq_true_eq] at hc
    rcases hc with ((((rfl | rfl) | rfl) | rfl) | rfl) | rfl <;> exact absurd h (by decide)
  · rintro rfl
    exact absurd h (by decide)
  · rw [Bool.or_eq_true] at h
    rcases h with h | h <;> simp [identStart, h]

/-! ## Scanning a name -/

section

variable {ts : List Token}

theorem Scanner.scan_append (s : Scanner) (front text : List Char) :
    s.scan (front ++ text) = (s.scan front).bind fun mid => mid.scan text :=
  List.foldlM_append

theorem Scanner.scan_cons (s : Scanner) (c : Char) (text : List Char) :
    s.scan (c :: text) = (s.next c).bind fun mid => mid.scan text :=
  rfl

@[simp] theorem Scanner.scan_nil (s : Scanner) : s.scan [] = some s := rfl

theorem Scanner.scan_word {name rest : List Char}
    (h : ∀ c ∈ rest, isSimple c = true) :
    (⟨ts, .word name⟩ : Scanner).scan rest = some ⟨ts, .word (name ++ rest)⟩ := by
  have hnext : ∀ c ∈ rest, ∀ held,
      (⟨ts, .word held⟩ : Scanner).next c = some ⟨ts, .word (held ++ [c])⟩ := by
    intro c hc held
    obtain ⟨hnul, hcont, hfold⟩ := identCont_of_isSimple (h c hc)
    simp [Scanner.next, hnul, hcont, hfold]
  exact foldlM_of_hold hnext name

theorem Scanner.scan_simple {name : List Char} (h : isSimpleIdent name = true) :
    (⟨ts, .idle⟩ : Scanner).scan name = some ⟨ts, .word name⟩ := by
  cases name with
  | nil => cases h
  | cons c rest =>
      rw [isSimpleIdent, Bool.and_eq_true] at h
      obtain ⟨hsimple, hspace, hquote, hstart⟩ := identStart_of_isLower h.1
      obtain ⟨hnul, -, hfold⟩ := identCont_of_isSimple hsimple
      have hnext : (⟨ts, .idle⟩ : Scanner).next c = some ⟨ts, .word [c]⟩ := by
        simp [Scanner.next, Scanner.fromIdle, hnul, hspace, hquote, hstart, hfold]
      rw [Scanner.scan_cons, hnext, Option.bind_some,
        Scanner.scan_word (List.all_eq_true.mp h.2), List.singleton_append]

theorem Scanner.scan_doubleQuotes {name text : List Char} (h : '\x00' ∉ text) :
    (⟨ts, .quoted name⟩ : Scanner).scan (doubleQuotes text) =
      some ⟨ts, .quoted (name ++ text)⟩ := by
  have hspell : ∀ c ∈ text, ∀ held,
      (⟨ts, .quoted held⟩ : Scanner).scan (if c = '"' then ['"', c] else [c]) =
        some ⟨ts, .quoted (held ++ [c])⟩ := by
    intro c hc held
    have hnul : c ≠ '\x00' := fun heq => h (heq ▸ hc)
    split
    · rename_i hquote
      subst hquote
      rfl
    · rename_i hquote
      simp [Scanner.scan_cons, Scanner.next, hnul, hquote]
  exact foldlM_flatMap_of_hold hspell name

theorem Scanner.scan_quoted {name : List Char} (h : '\x00' ∉ name) :
    (⟨ts, .idle⟩ : Scanner).scan (quoted name) = some ⟨ts, .quote name⟩ := by
  have hopen : (⟨ts, .idle⟩ : Scanner).next '"' = some ⟨ts, .quoted []⟩ := rfl
  rw [quoted, Scanner.scan_cons, hopen, Option.bind_some, Scanner.scan_append,
    Scanner.scan_doubleQuotes h]
  rfl

end

/-! ## The tokens of a statement -/

/-- A place at which a token is complete when the text ends or a semicolon follows. -/
structure Ends (place : Place) (t : Token) : Prop where
  finish : ∀ ts, Scanner.finish ⟨ts, place⟩ = some (ts ++ [t])
  semicolon : ∀ ts, Scanner.next ⟨ts, place⟩ ';' = some ⟨ts ++ [t, .symbol ';'], .idle⟩

/-- The token `quote_ident_channel` makes of a name. -/
def channelToken (channel : List Char) : Token :=
  if isSimpleIdent channel then .word channel else .delimited channel

section

variable {channel : List Char}

theorem fromIdle_semicolon (ts : List Token) :
    Scanner.fromIdle ts ';' = ⟨ts ++ [.symbol ';'], .idle⟩ := rfl

theorem ends_word (hlen : channel.length ≤ maxName) : Ends (.word channel) (.word channel) where
  finish ts := by
    simp [Scanner.finish, List.take_of_length_le hlen]
  semicolon ts := by
    have hcont : identCont ';' = false := by decide
    simp [Scanner.next, hcont, fromIdle_semicolon, List.take_of_length_le hlen]

theorem ends_quote (hne : channel ≠ []) (hlen : channel.length ≤ maxName) :
    Ends (.quote channel) (.delimited channel) where
  finish ts := by
    simp [Scanner.finish, hne, List.take_of_length_le hlen]
  semicolon ts := by
    simp [Scanner.next, hne, fromIdle_semicolon, List.take_of_length_le hlen]

theorem scan_quoteIdentChannel (hne : channel ≠ []) (hnul : '\x00' ∉ channel)
    (hlen : channel.length ≤ maxName) :
    ∃ place, Ends place (channelToken channel) ∧
      ∀ ts, (⟨ts, .idle⟩ : Scanner).scan (quoteIdentChannel channel) = some ⟨ts, place⟩ := by
  rw [channelToken, quoteIdentChannel]
  split
  · rename_i hsimple
    exact ⟨_, ends_word hlen, fun ts => Scanner.scan_simple hsimple⟩
  · exact ⟨_, ends_quote hne hlen, fun ts => Scanner.scan_quoted hnul⟩

theorem tokens_of_scan {text : List Char} {place : Place} {t : Token} (hends : Ends place t)
    (hscan : (⟨[], .idle⟩ : Scanner).scan text = some ⟨[], place⟩) : tokens text = some [t] := by
  rw [tokens, hscan, Option.bind_some, hends.finish, List.nil_append]

theorem tokens_statement (hne : channel ≠ []) (hnul : '\x00' ∉ channel)
    (hlen : channel.length ≤ maxName) (listen : Bool) :
    tokens (statement listen channel) =
      some [.word (if listen then "listen".toList else "unlisten".toList), channelToken channel,
        .symbol ';'] := by
  obtain ⟨place, hends, hscan⟩ := scan_quoteIdentChannel hne hnul hlen
  have hverb : (⟨[], .idle⟩ : Scanner).scan
      (if listen then "LISTEN ".toList else "UNLISTEN ".toList) =
        some ⟨[.word (if listen then "listen".toList else "unlisten".toList)], .idle⟩ := by
    cases listen <;> rfl
  rw [statement, tokens, Scanner.scan_append, Scanner.scan_append, hverb, Option.bind_some, hscan,
    Option.bind_some, Scanner.scan_cons, hends.semicolon]
  rfl

theorem colId_channelToken (reserved : List Char → Bool) (channel : List Char) :
    (channelToken channel).colId reserved =
      if isSimpleIdent channel = true ∧ reserved channel = true then none else some channel := by
  rw [channelToken]
  by_cases hsimple : isSimpleIdent channel = true
  · simp [hsimple, Token.colId]
  · simp [hsimple, Token.colId]

theorem identifier_of_tokens {reserved : List Char → Bool} {text : List Char} {t : Token}
    (h : tokens text = some [t]) : identifier reserved text = t.colId reserved := by
  rw [identifier, h]

theorem command_statement (reserved : List Char → Bool) (hne : channel ≠ [])
    (hnul : '\x00' ∉ channel) (hlen : channel.length ≤ maxName) (listen : Bool) :
    command reserved (statement listen channel) =
      ((channelToken channel).colId reserved).map (if listen then .listen else .unlisten) := by
  rw [command, tokens_statement hne hnul hlen]
  cases listen <;> rfl

end

/-! ## Which channels are named -/

/-- Both statements are one command for exactly this channel, and both ways of quoting it
denote it. -/
structure Named (reserved : List Char → Bool) (channel : List Char) : Prop where
  statements : ∀ listen, command reserved (statement listen channel) =
    some (if listen then .listen channel else .unlisten channel)
  same : ∃ strict, quoteIdentStrict channel = some strict ∧
    identifier reserved strict = some channel ∧
    identifier reserved (quoteIdentChannel channel) = identifier reserved strict

/-- **LISTEN names the channel exactly if the name is not a reserved word left unquoted.** -/
theorem channel_named_iff (reserved : List Char → Bool) (channel : List Char) (hne : channel ≠ [])
    (hnul : '\x00' ∉ channel) (hlen : channel.length ≤ maxName) :
    Named reserved channel ↔ ¬ (isSimpleIdent channel = true ∧ reserved channel = true) := by
  have hcolId := colId_channelToken reserved channel
  constructor
  · intro h hboth
    have hlisten := h.statements true
    rw [command_statement reserved hne hnul hlen, hcolId, if_pos hboth] at hlisten
    cases hlisten
  · intro h
    rw [if_neg h] at hcolId
    refine ⟨fun listen => ?_, quoted channel, ?_, ?_⟩
    · rw [command_statement reserved hne hnul hlen, hcolId]
      cases listen <;> rfl
    · rw [quoteIdentStrict, if_neg hne, if_neg hnul]
    · have hstrict : identifier reserved (quoted channel) = some channel :=
        identifier_of_tokens (tokens_of_scan (ends_quote hne hlen) (Scanner.scan_quoted hnul))
      obtain ⟨place, hends, hscan⟩ := scan_quoteIdentChannel hne hnul hlen
      rw [hstrict, identifier_of_tokens (tokens_of_scan hends (hscan [])), hcolId]
      exact ⟨rfl, rfl⟩

/-- The words that cannot be a `ColId` of PostgreSQL. -/
def reservedWords : List (List Char) :=
  ["all", "analyse", "analyze", "and", "any", "array", "as", "asc", "asymmetric",
    "authorization", "binary", "both", "case", "cast", "check", "collate", "collation", "column",
    "concurrently", "constraint", "create", "cross", "current_catalog", "current_date",
    "current_role", "current_schema", "current_time", "current_timestamp", "current_user",
    "default", "deferrable", "desc", "distinct", "do", "else", "end", "except", "false", "fetch",
    "for", "foreign", "freeze", "from", "full", "grant", "group", "having", "ilike", "in",
    "initially", "inner", "intersect", "into", "is", "isnull", "join", "lateral", "leading",
    "left", "like", "limit", "localtime", "localtimestamp", "natural", "not", "notnull", "null",
    "offset", "on", "only", "or", "order", "outer", "overlaps", "placing", "primary",
    "references", "returning", "right", "select", "session_user", "similar", "some", "symmetric",
    "system_user", "table", "tablesample", "then", "to", "trailing", "true", "union", "unique",
    "user", "using", "variadic", "verbose", "when", "where", "window", "with"].map String.toList

/-- A name that needs its quotes, with a quote and a semicolon in it. -/
theorem channel_named_iff_quoted :
    Named (fun word => word ∈ reservedWords) "Jobs\";x".toList :=
  (channel_named_iff _ _ (by decide) (by decide) (by decide)).mpr (by decide)

/-- A channel that no LISTEN reaches. -/
theorem reserved_channel_not_named :
    command (fun word => word ∈ reservedWords) (statement true "order".toList) = none ∧
      identifier (fun word => word ∈ reservedWords) (quoteIdentChannel "order".toList) = none ∧
      (quoteIdentStrict "order".toList).bind (identifier fun word => word ∈ reservedWords) =
        some "order".toList := by
  decide +kernel

end Upq.Notify.Ident
