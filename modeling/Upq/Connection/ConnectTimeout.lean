/-
  Connection/ConnectTimeout.lean --- the connection string handed to libpq.

  Source: `src/upq/PgConnection.cpp`, `PgConnectionLibpq::connect_async` up to
  `PQconnectStart`.

  `connect_async` looks for a `connect_timeout` of the caller with a scanner of its own and
  appends one if it finds none.  The scanner knows spaces and tabs between pairs, none
  around `=`, and no backslash in an unquoted value.  `PlainTimeout` are the strings in
  which it finds the key (`hasConnectTimeout_iff`).  On a valid string in which it does not,
  the appended pair wins over a timeout of the caller written in another way, and becomes
  part of a value that is still open at the end; in all other cases the settings are kept
  (`settings_kept_iff`).
-/
import Mathlib.Data.List.TakeWhile
import Upq.Connection.KeywordValue
import Upq.Foundation.Decimal

set_option autoImplicit false

namespace Upq.Conninfo

open Upq.Foundation

/-! ## The scanner -/

/-- `connect_timeout` -/
def connectTimeout : Text := "connect_timeout".toList

def isBlank (c : Char) : Bool := c = ' ' || c = '\t'

def inKey (c : Char) : Bool := c ≠ '=' && c ≠ ' '

/-- The loop over a quoted value, from behind the quote. -/
def skipQuoted : Text → Text
  | [] => []
  | c :: rest =>
      if c = '\\' then
        match rest with
        | [] => []
        | _ :: rest => skipQuoted rest
      else if c = '\'' then rest
      else skipQuoted rest

/-- What is left behind the value. -/
def skipValue : Text → Text
  | [] => []
  | c :: rest => if c = '\'' then skipQuoted rest else (c :: rest).dropWhile fun d => !isBlank d

theorem length_skipQuoted_le (text : Text) : (skipQuoted text).length ≤ text.length := by
  fun_induction skipQuoted text <;> simp only [List.length_cons, List.length_nil] at * <;> omega

theorem length_skipValue_le (text : Text) : (skipValue text).length ≤ text.length := by
  cases text with
  | nil => exact Nat.le_refl 0
  | cons c rest =>
      rw [skipValue]
      split
      · exact Nat.le_succ_of_le (length_skipQuoted_le rest)
      · exact (List.dropWhile_suffix _).length_le

theorem length_skipValue_lt {ci value : Text} {c : Char}
    (h : (ci.dropWhile isBlank).dropWhile inKey = c :: value) :
    (skipValue value).length < ci.length := by
  have hkey := (List.dropWhile_suffix inKey (l := ci.dropWhile isBlank)).length_le
  have hblank := (List.dropWhile_suffix isBlank (l := ci)).length_le
  have hvalue := length_skipValue_le value
  rw [h, List.length_cons] at hkey
  omega

/-- `has_connect_timeout` -/
def hasConnectTimeout (ci : Text) : Bool :=
  match h : (ci.dropWhile isBlank).dropWhile inKey with
  | [] => false
  | c :: value =>
      have := length_skipValue_lt h
      if c ≠ '=' then false
      else if (ci.dropWhile isBlank).takeWhile inKey = connectTimeout then true
      else hasConnectTimeout (skipValue value)
termination_by ci.length

/-! ## The string passed on -/

/-- The seconds of the budget, for a timeout in milliseconds. -/
def budgetSeconds (timeout : Int) : Int :=
  let budget := if timeout ≤ 0 then 5000 else timeout
  let secs := budget.tdiv 1000
  if secs ≤ 0 then 1 else secs

/-- `conninfo_with_to` -/
def conninfoWithTo (conninfo : Text) (timeout : Int) : Text :=
  if hasConnectTimeout conninfo then conninfo
  else conninfo ++ (" connect_timeout=".toList ++ Decimal.text (budgetSeconds timeout))

/-! ## What the scanner finds -/

/-- A quoted value and the text behind it, from behind the first quote. -/
inductive QuotedRest : Text → Text → Prop where
  | close (rest : Text) : QuotedRest ('\'' :: rest) rest
  | escape (c : Char) {text rest : Text} : QuotedRest text rest →
      QuotedRest ('\\' :: c :: text) rest
  | plain {c : Char} {text rest : Text} : c ≠ '\\' → c ≠ '\'' → QuotedRest text rest →
      QuotedRest (c :: text) rest

/-- A `connect_timeout` behind pairs that are written plainly: spaces and tabs between them,
no space in a key or around the `=`, values in quotes or without spaces and tabs. -/
inductive PlainTimeout : Text → Prop where
  | here (value : Text) : PlainTimeout (connectTimeout ++ '=' :: value)
  | blank {c : Char} {text : Text} : isBlank c = true → PlainTimeout text →
      PlainTimeout (c :: text)
  | quoted {key text rest : Text} : (∀ c ∈ key, inKey c = true) → QuotedRest text rest →
      PlainTimeout rest → PlainTimeout (key ++ '=' :: '\'' :: text)
  | bare {key value rest : Text} {c : Char} : (∀ d ∈ key, inKey d = true) →
      (∀ d ∈ value, isBlank d = false) → value.head? ≠ some '\'' → isBlank c = true →
      PlainTimeout (c :: rest) → PlainTimeout (key ++ '=' :: (value ++ c :: rest))

theorem skipQuoted_of_quotedRest {text rest : Text} (h : QuotedRest text rest) :
    skipQuoted text = rest := by
  induction h with
  | close rest => simp [skipQuoted.eq_def]
  | escape c _ ih => exact ih
  | plain hslash hquote _ ih =>
      unfold skipQuoted
      simpa [hslash, hquote] using ih

theorem quotedRest_skipQuoted {text : Text} (h : skipQuoted text ≠ []) :
    QuotedRest text (skipQuoted text) := by
  fun_induction skipQuoted text with
  | case1 => exact absurd rfl h
  | case2 => exact absurd rfl h
  | case3 c rest ih => exact .escape c (ih h)
  | case4 rest => exact .close _
  | case5 c rest hslash hquote ih => exact .plain hslash hquote (ih h)

/-- One pass of the loop. -/
theorem hasConnectTimeout_eq (ci : Text) :
    hasConnectTimeout ci =
      match (ci.dropWhile isBlank).dropWhile inKey with
      | [] => false
      | c :: value =>
          if c ≠ '=' then false
          else if (ci.dropWhile isBlank).takeWhile inKey = connectTimeout then true
          else hasConnectTimeout (skipValue value) := by
  rw [hasConnectTimeout]
  split
  · rename_i hnil
    rw [hnil]
  · rename_i hcons
    dsimp only
    rw [hcons]

theorem hasConnectTimeout_pair {ci value : Text}
    (h : (ci.dropWhile isBlank).dropWhile inKey = '=' :: value) :
    hasConnectTimeout ci = true ↔
      (ci.dropWhile isBlank).takeWhile inKey = connectTimeout ∨
        hasConnectTimeout (skipValue value) = true := by
  rw [hasConnectTimeout_eq, h]
  by_cases hkey : (ci.dropWhile isBlank).takeWhile inKey = connectTimeout
  · simp [hkey]
  · simp [hkey]

theorem hasConnectTimeout_blank {c : Char} (hc : isBlank c = true) (text : Text) :
    hasConnectTimeout (c :: text) = hasConnectTimeout text := by
  rw [hasConnectTimeout_eq, hasConnectTimeout_eq text, List.dropWhile_cons_of_pos hc]

/-- The key ends at the first `=`, whatever blanks are in front. -/
theorem dropWhile_key {key value : Text} (h : ∀ c ∈ key, inKey c = true) :
    ((key ++ '=' :: value).dropWhile isBlank).dropWhile inKey = '=' :: value := by
  induction key with
  | nil => rfl
  | cons c key ih =>
      rw [List.cons_append, List.dropWhile_cons]
      split
      · exact ih fun d hd => h d (List.mem_cons_of_mem c hd)
      · rw [← List.cons_append, List.dropWhile_append_of_pos h]
        rfl

/-- A character of a key is neither a blank nor the end of the key. -/
theorem inKey_of_plain {c : Char} (h : Plain c) : isBlank c = false ∧ inKey c = true := by
  have hspace := h.1
  simp only [isSpace, Bool.or_eq_false_iff, decide_eq_false_iff_not] at hspace
  simp [isBlank, inKey, hspace, h.2.1]

theorem takeWhile_key {key value : Text} (h : ∀ c ∈ key, Plain c) :
    ((key ++ '=' :: value).dropWhile isBlank).takeWhile inKey = key := by
  cases key with
  | nil => rfl
  | cons c key =>
      have hblank := (inKey_of_plain (h c List.mem_cons_self)).1
      have hkey : ∀ d ∈ c :: key, inKey d = true := fun d hd => (inKey_of_plain (h d hd)).2
      rw [List.cons_append, List.dropWhile_cons_of_neg (Bool.eq_false_iff.mp hblank),
        ← List.cons_append, List.takeWhile_append_of_pos hkey]
      simp [inKey]

theorem plain_connectTimeout : ∀ c ∈ connectTimeout, Plain c := forall_of_all (by decide)

theorem skipValue_quote (rest : Text) : skipValue ('\'' :: rest) = skipQuoted rest := by
  rw [skipValue, if_pos rfl]

/-- An unquoted value ends at the first blank. -/
theorem skipValue_bare {value : Text} (h : value.head? ≠ some '\'') :
    skipValue value = value.dropWhile fun d => !isBlank d := by
  cases value with
  | nil => rfl
  | cons c rest =>
      have hc : c ≠ '\'' := fun hquote => h (congrArg some hquote)
      rw [skipValue, if_neg hc]

theorem hasConnectTimeout_of_plainTimeout {ci : Text} (h : PlainTimeout ci) :
    hasConnectTimeout ci = true := by
  induction h with
  | here value =>
      have hkey : ∀ c ∈ connectTimeout, inKey c = true :=
        fun c hc => (inKey_of_plain (plain_connectTimeout c hc)).2
      exact (hasConnectTimeout_pair (dropWhile_key hkey)).mpr
        (.inl (takeWhile_key plain_connectTimeout))
  | blank hc _ ih => rw [hasConnectTimeout_blank hc, ih]
  | quoted hkey hquoted _ ih =>
      refine (hasConnectTimeout_pair (dropWhile_key hkey)).mpr (.inr ?_)
      rw [skipValue_quote, skipQuoted_of_quotedRest hquoted, ih]
  | @bare key value rest c hkey hvalue hhead hc _ ih =>
      refine (hasConnectTimeout_pair (dropWhile_key hkey)).mpr (.inr ?_)
      have hhead' : (value ++ c :: rest).head? ≠ some '\'' := by
        cases value with
        | nil =>
            intro hquote
            cases hquote
            cases hc
        | cons d value => exact hhead
      have hskip : ∀ d ∈ value, (!isBlank d) = true := by
        intro d hd
        rw [hvalue d hd]
        rfl
      rw [skipValue_bare hhead', List.dropWhile_append_of_pos hskip,
        List.dropWhile_cons_of_neg (by simp [hc]), ih]

theorem PlainTimeout.blanks {front text : Text} (hfront : ∀ c ∈ front, isBlank c = true)
    (h : PlainTimeout text) : PlainTimeout (front ++ text) := by
  induction front with
  | nil => exact h
  | cons c front ih =>
      exact .blank (hfront c List.mem_cons_self)
        (ih fun d hd => hfront d (List.mem_cons_of_mem c hd))

theorem PlainTimeout.ne_nil {text : Text} (h : PlainTimeout text) : text ≠ [] := by
  cases h with
  | here value => exact List.append_ne_nil_of_left_ne_nil (by decide) _
  | blank => exact List.cons_ne_nil _ _
  | quoted => exact List.append_ne_nil_of_right_ne_nil _ (List.cons_ne_nil _ _)
  | bare => exact List.append_ne_nil_of_right_ne_nil _ (List.cons_ne_nil _ _)

/-- A pair in front, with its value skipped the way the scanner does it. -/
theorem PlainTimeout.pair {key value : Text} (hkey : ∀ c ∈ key, inKey c = true)
    (h : PlainTimeout (skipValue value)) : PlainTimeout (key ++ '=' :: value) := by
  by_cases hquote : value.head? = some '\''
  · obtain ⟨rest, rfl⟩ := List.head?_eq_some_iff.mp hquote
    rw [skipValue_quote] at h
    exact .quoted hkey (quotedRest_skipQuoted h.ne_nil) h
  · rw [skipValue_bare hquote] at h
    obtain ⟨c, rest, hrest⟩ := List.exists_cons_of_ne_nil h.ne_nil
    have hc : isBlank c = true := by
      have hstop := List.head?_dropWhile_not (fun d => !isBlank d) value
      rw [hrest] at hstop
      simpa using hstop
    have hvalue : ∀ d ∈ value.takeWhile fun d => !isBlank d, isBlank d = false := by
      intro d hd
      simpa using List.mem_takeWhile_imp hd
    have hhead : (value.takeWhile fun d => !isBlank d).head? ≠ some '\'' := by
      cases value with
      | nil => exact fun hnone => nomatch hnone
      | cons d value =>
          rw [List.takeWhile_cons]
          split
          · exact hquote
          · exact fun hnone => nomatch hnone
    rw [← List.takeWhile_append_dropWhile (p := fun d => !isBlank d) (l := value), hrest]
    rw [hrest] at h
    exact .bare hkey hvalue hhead hc h

theorem plainTimeout_of_hasConnectTimeout {ci : Text} (h : hasConnectTimeout ci = true) :
    PlainTimeout ci := by
  induction hlen : ci.length using Nat.strongRecOn generalizing ci with
  | _ n ih =>
      have hblanks : ∀ c ∈ ci.takeWhile isBlank, isBlank c = true :=
        fun c hc => List.mem_takeWhile_imp hc
      rw [← List.takeWhile_append_dropWhile (p := isBlank) (l := ci)]
      refine .blanks hblanks ?_
      have hkey : ∀ c ∈ (ci.dropWhile isBlank).takeWhile inKey, inKey c = true :=
        fun c hc => List.mem_takeWhile_imp hc
      rw [← List.takeWhile_append_dropWhile (p := inKey) (l := ci.dropWhile isBlank)]
      cases hrest : (ci.dropWhile isBlank).dropWhile inKey with
      | nil =>
          rw [hasConnectTimeout_eq, hrest] at h
          cases h
      | cons c value =>
          by_cases hc : c = '='
          · subst hc
            rcases (hasConnectTimeout_pair hrest).mp h with hname | hmore
            · rw [hname]
              exact .here value
            · exact .pair hkey (ih _ (hlen ▸ length_skipValue_lt hrest) hmore rfl)
          · rw [hasConnectTimeout_eq, hrest] at h
            simp [hc] at h

/-- **The scanner finds exactly the plainly written key.** -/
theorem hasConnectTimeout_iff (ci : Text) : hasConnectTimeout ci = true ↔ PlainTimeout ci :=
  ⟨plainTimeout_of_hasConnectTimeout, hasConnectTimeout_of_plainTimeout⟩

/-! ## The appended pair -/

theorem plainValue_of_isDigit {c : Char} (h : c.isDigit = true) : PlainValue c := by
  have hspace : isSpace c = false := by
    refine Bool.eq_false_iff.mpr fun hc => ?_
    simp only [isSpace, Bool.or_eq_true, decide_eq_true_eq] at hc
    rcases hc with ((((rfl | rfl) | rfl) | rfl) | rfl) | rfl <;> cases h
  refine ⟨hspace, ?_, ?_, ?_⟩
  all_goals
    rintro rfl
    cases h

theorem plainValue_of_mem_text {v : Int} {c : Char} (h : c ∈ Decimal.text v) :
    PlainValue c := by
  rcases Decimal.mem_text h with hdigit | rfl
  · exact plainValue_of_isDigit hdigit
  · exact ⟨by decide, by decide, by decide, by decide⟩

/-- ` connect_timeout=` and the seconds. -/
def timeoutPair (value : Text) : Text := ' ' :: (connectTimeout ++ '=' :: value)

theorem conninfoWithTo_eq (ci : Text) (timeout : Int) :
    conninfoWithTo ci timeout =
      if hasConnectTimeout ci then ci
      else ci ++ timeoutPair (Decimal.text (budgetSeconds timeout)) := by
  rfl

section

variable {s : Settings} {ci value : Text}

theorem plainValue_timeout (hvalue : ∀ c ∈ value, PlainValue c) :
    ∀ c ∈ connectTimeout ++ '=' :: value, PlainValue c := by
  have hkey : ∀ c ∈ connectTimeout ++ ['='], PlainValue c := forall_of_all (by decide)
  intro c hc
  rw [List.append_cons] at hc
  rcases List.mem_append.mp hc with h | h
  · exact hkey c h
  · exact hvalue c h

/-- Between pairs, the text is a pair of its own. -/
theorem Reader.read_timeout (hne : value ≠ []) (hvalue : ∀ c ∈ value, PlainValue c) :
    (⟨s, .gap⟩ : Reader).read (connectTimeout ++ '=' :: value) =
      some ⟨s, .bare connectTimeout value⟩ := by
  rw [List.append_cons, Reader.read_append, Reader.read_key (by decide) plain_connectTimeout,
    Option.bind_some, Reader.read_value hne hvalue]

/-- At the end of the string a value has not begun, or a backslash has nothing behind it. -/
def OpenEnded (ci : Text) : Prop :=
  ∃ r, Reader.start.read ci = some r ∧
    ((∃ key, r.place = .afterEq key) ∨ ∃ key v, r.place = .bareEscape key v)

theorem settings_append (ci text : Text) :
    settings (ci ++ text) =
      (Reader.start.read ci).bind fun r => (r.read text).bind Reader.finish := by
  rw [settings, Reader.read_append, Option.bind_assoc]

/-- Behind a string that is not open, it is read as a pair of its own. -/
theorem settings_timeout_closed (h : settings ci = some s) (hclosed : ¬ OpenEnded ci)
    (hne : value ≠ []) (hvalue : ∀ c ∈ value, PlainValue c) :
    settings (ci ++ timeoutPair value) = some (s ++ [(connectTimeout, value)]) := by
  obtain ⟨⟨stored, place⟩, hread, hfinish⟩ := Option.bind_eq_some_iff.mp h
  rw [settings_append, hread, Option.bind_some, timeoutPair, Reader.read_cons]
  cases place with
  | gap =>
      cases hfinish
      have hspace : (⟨stored, .gap⟩ : Reader).next ' ' = some ⟨stored, .gap⟩ := rfl
      rw [hspace, Option.bind_some, Reader.read_timeout hne hvalue]
      rfl
  | bare key v =>
      cases hfinish
      have hspace : (⟨stored, .bare key v⟩ : Reader).next ' ' =
          some ⟨stored ++ [(key, v)], .gap⟩ := rfl
      rw [hspace, Option.bind_some, Reader.read_timeout hne hvalue]
      rfl
  | afterEq key => exact absurd ⟨_, hread, .inl ⟨key, rfl⟩⟩ hclosed
  | bareEscape key v => exact absurd ⟨_, hread, .inr ⟨key, v, rfl⟩⟩ hclosed
  | name key => cases hfinish
  | afterName key => cases hfinish
  | quoted key v => cases hfinish
  | quotedEscape key v => cases hfinish

/-- Behind a string that is open, it becomes part of the last value. -/
theorem settings_timeout_open (h : settings ci = some s) (hopen : OpenEnded ci)
    (hvalue : ∀ c ∈ value, PlainValue c) :
    ∃ front key v more, s = front ++ [(key, v)] ∧ more ≠ [] ∧
      settings (ci ++ timeoutPair value) = some (front ++ [(key, v ++ more)]) := by
  obtain ⟨⟨stored, place⟩, hread, hplace⟩ := hopen
  rw [settings, hread, Option.bind_some] at h
  rw [settings_append, hread, Option.bind_some, timeoutPair, Reader.read_cons]
  have hne : connectTimeout ++ '=' :: value ≠ [] :=
    List.append_ne_nil_of_left_ne_nil (by decide) _
  rcases hplace with ⟨key, rfl⟩ | ⟨key, v, rfl⟩
  · cases h
    refine ⟨stored, key, [], connectTimeout ++ '=' :: value, rfl, hne, ?_⟩
    have hspace : (⟨stored, .afterEq key⟩ : Reader).next ' ' = some ⟨stored, .afterEq key⟩ := rfl
    rw [hspace, Option.bind_some, Reader.read_value hne (plainValue_timeout hvalue)]
    rfl
  · cases h
    refine ⟨stored, key, v, [' '] ++ (connectTimeout ++ '=' :: value), rfl,
      List.cons_ne_nil _ _, ?_⟩
    have hspace : (⟨stored, .bareEscape key v⟩ : Reader).next ' ' =
        some ⟨stored, .bare key (v ++ [' '])⟩ := rfl
    rw [hspace, Option.bind_some, Reader.read_bare (plainValue_timeout hvalue), List.append_assoc]
    rfl

end

/-! ## The settings that arrive -/

/-- The settings `after` are those given, or those given and a timeout where none was. -/
def Kept (given after : Settings) (value : Text) : Prop :=
  (∀ key, lookup after key = lookup given key) ∨
    lookup given connectTimeout = none ∧
      ∀ key, lookup after key = lookup (given ++ [(connectTimeout, value)]) key

theorem kept_append_iff (given : Settings) (value : Text) :
    Kept given (given ++ [(connectTimeout, value)]) value ↔
      lookup given connectTimeout = none ∨ lookup given connectTimeout = some value := by
  constructor
  · rintro (hsame | ⟨hnone, -⟩)
    · have htimeout := hsame connectTimeout
      rw [lookup_append_singleton, if_pos rfl] at htimeout
      exact .inr htimeout.symm
    · exact .inl hnone
  · rintro (hnone | hsome)
    · exact .inr ⟨hnone, fun _ => rfl⟩
    · refine .inl fun key => ?_
      rw [lookup_append_singleton]
      split
      · rename_i hkey
        rw [hkey, hsome]
      · rfl

/-- A last value that has grown is not kept. -/
theorem not_kept_of_grown {front : Settings} {key v more value : Text} (hmore : more ≠ []) :
    ¬ Kept (front ++ [(key, v)]) (front ++ [(key, v ++ more)]) value := by
  have hgrown : v ++ more ≠ v := fun h => hmore (List.append_right_eq_self.mp h)
  rintro (hsame | ⟨hnone, hsame⟩)
  · have hkey := hsame key
    rw [lookup_append_singleton, lookup_append_singleton, if_pos rfl, if_pos rfl] at hkey
    exact hgrown (Option.some.inj hkey)
  · have hother : key ≠ connectTimeout := by
      intro h
      rw [lookup_append_singleton, if_pos h.symm] at hnone
      cases hnone
    have hkey := hsame key
    rw [lookup_append_singleton, lookup_append_singleton _ connectTimeout, if_neg hother,
      lookup_append_singleton, if_pos rfl, if_pos rfl] at hkey
    exact hgrown (Option.some.inj hkey)

/-- **Which settings are kept.**  Those of a string with a plainly written timeout, and
those of a string that is not open at the end and gives no timeout, or gives the very one
that is appended. -/
theorem settings_kept_iff (ci : Text) (timeout : Int) (given : Settings)
    (h : settings ci = some given) :
    (∃ after, settings (conninfoWithTo ci timeout) = some after ∧
        Kept given after (Decimal.text (budgetSeconds timeout))) ↔
      PlainTimeout ci ∨
        ¬ OpenEnded ci ∧ (lookup given connectTimeout = none ∨
          lookup given connectTimeout = some (Decimal.text (budgetSeconds timeout))) := by
  have hne := Decimal.text_ne_nil (budgetSeconds timeout)
  have hvalue : ∀ c ∈ Decimal.text (budgetSeconds timeout), PlainValue c :=
    fun c hc => plainValue_of_mem_text hc
  rw [conninfoWithTo_eq, ← hasConnectTimeout_iff]
  cases hasConnectTimeout ci with
  | true =>
      rw [if_pos rfl]
      exact iff_of_true ⟨given, h, .inl fun _ => rfl⟩ (.inl rfl)
  | false =>
      rw [if_neg Bool.false_ne_true]
      by_cases hopen : OpenEnded ci
      · obtain ⟨front, key, v, more, rfl, hmore, hafter⟩ := settings_timeout_open h hopen hvalue
        refine iff_of_false ?_ ?_
        · rintro ⟨after, hsettings, hkept⟩
          rw [hafter] at hsettings
          cases hsettings
          exact not_kept_of_grown hmore hkept
        · rintro (hfalse | ⟨hclosed, -⟩)
          · exact Bool.false_ne_true hfalse
          · exact hclosed hopen
      · rw [settings_timeout_closed h hopen hne hvalue]
        simp [kept_append_iff, hopen]

/-- A timeout of the caller that is found. -/
theorem settings_kept_iff_plain :
    settings "connect_timeout=10".toList = some [(connectTimeout, "10".toList)] ∧
      ∃ after, settings (conninfoWithTo "connect_timeout=10".toList 30000) = some after ∧
        Kept [(connectTimeout, "10".toList)] after (Decimal.text (budgetSeconds 30000)) :=
  have hgiven : settings "connect_timeout=10".toList = some [(connectTimeout, "10".toList)] := by
    decide
  ⟨hgiven, (settings_kept_iff _ 30000 _ hgiven).mpr (.inl (.here "10".toList))⟩

/-- A timeout of five seconds behind a newline is not found, and thirty seconds are sent. -/
theorem timeout_behind_newline :
    settings "host=a\nconnect_timeout=5".toList =
        some [("host".toList, "a".toList), (connectTimeout, "5".toList)] ∧
      ¬ ∃ after, settings (conninfoWithTo "host=a\nconnect_timeout=5".toList 30000) = some after ∧
        Kept [("host".toList, "a".toList), (connectTimeout, "5".toList)] after
          (Decimal.text (budgetSeconds 30000)) := by
  have hsent : settings (conninfoWithTo "host=a\nconnect_timeout=5".toList 30000) =
      some [("host".toList, "a".toList), (connectTimeout, "5".toList),
        (connectTimeout, "30".toList)] := by
    decide +kernel
  refine ⟨by decide, ?_⟩
  rintro ⟨after, hafter, hkept⟩
  rw [hsent] at hafter
  cases hafter
  rcases hkept with hsame | ⟨hnone, -⟩
  · exact absurd (hsame connectTimeout) (by decide)
  · exact absurd hnone (by decide)

end Upq.Conninfo
