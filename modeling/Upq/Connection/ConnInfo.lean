/-
  Connection/ConnInfo.lean --- `make_conninfo`: from settings to a connection string.

  Source: `include/upq/utils/ConnInfo.h`, `include/upq/utils/IPAddressUtils.h`,
  `SSLConfig` and `TCPKeepaliveConfig` in `include/upq/PgConnection.h`.

  Every value is quoted, with a backslash before a backslash and a quote.  Read back by
  the grammar of libpq, the string is the list of the inserted pairs, and neither the
  scanner of `connect_async` nor an appended pair sees anything else in it
  (`conninfo_not_injectable`).

  Which host the string names is another matter: with `server_hostname` set, a host that
  is not an address literal is replaced by it (`targets_own_iff`).
-/
import Upq.Connection.ConnectTimeout

set_option autoImplicit false

namespace Upq.Conninfo

open Upq.Foundation

/-! ## Configuration -/

/-- `ConninfoError` -/
inductive ConninfoError where
  | containsNul
  deriving DecidableEq, Repr

/-- `SSLMode` -/
inductive SSLMode where
  | disable
  | allow
  | prefer
  | require
  | verifyCa
  | verifyFull
  deriving DecidableEq, Repr

/-- `to_string(SSLMode)` -/
def SSLMode.text : SSLMode → Text
  | .disable => "disable".toList
  | .allow => "allow".toList
  | .prefer => "prefer".toList
  | .require => "require".toList
  | .verifyCa => "verify-ca".toList
  | .verifyFull => "verify-full".toList

/-- `SSLConfig` -/
structure SSLConfig where
  mode : SSLMode := .prefer
  rootCert : Option Text := none
  crl : Option Text := none
  clientCert : Option Text := none
  clientKey : Option Text := none
  serverHostname : Option Text := none
  deriving DecidableEq, Repr

/-- `TCPKeepaliveConfig`; its member `keepalives` is not read -/
structure TCPKeepaliveConfig where
  enabled : Bool := false
  idle : Int := 30
  interval : Int := 10
  count : Int := 3
  deriving DecidableEq, Repr

/-- What a pool is given of an endpoint. -/
structure Endpoint where
  host : Text
  port : Text
  user : Text
  db : Text
  password : Text
  deriving DecidableEq, Repr

/-- The keys `make_conninfo` writes. -/
inductive Keyword where
  | hostaddr
  | host
  | port
  | user
  | dbname
  | password
  | sslmode
  | sslrootcert
  | sslcert
  | sslkey
  | sslcrl
  | keepalives
  | keepalivesIdle
  | keepalivesInterval
  | keepalivesCount
  deriving DecidableEq, Repr

def Keyword.text : Keyword → Text
  | .hostaddr => "hostaddr".toList
  | .host => "host".toList
  | .port => "port".toList
  | .user => "user".toList
  | .dbname => "dbname".toList
  | .password => "password".toList
  | .sslmode => "sslmode".toList
  | .sslrootcert => "sslrootcert".toList
  | .sslcert => "sslcert".toList
  | .sslkey => "sslkey".toList
  | .sslcrl => "sslcrl".toList
  | .keepalives => "keepalives".toList
  | .keepalivesIdle => "keepalives_idle".toList
  | .keepalivesInterval => "keepalives_interval".toList
  | .keepalivesCount => "keepalives_count".toList

/-! ## Hosts -/

/-- `AF_INET` and `AF_INET6` -/
inductive AddressFamily where
  | inet
  | inet6
  deriving DecidableEq, Repr

/-- `strip_brackets` -/
def stripBrackets (h : Text) : Text :=
  if h.length ≥ 2 ∧ h.head? = some '[' ∧ h.getLast? = some ']' then (h.drop 1).take (h.length - 2)
  else h

/-- `is_ip_literal`; `inetPton` says whether `::inet_pton` accepts a C string -/
def isIpLiteral (inetPton : AddressFamily → Text → Bool) (host : Text) : Bool :=
  let host := stripBrackets host
  if '%' ∈ host then false
  else
    let hostCstr := host.takeWhile (· ≠ '\x00')
    inetPton .inet hostCstr || inetPton .inet6 hostCstr

/-! ## Writing -/

/-- The loop of `escape_conninfo_value`. -/
def escapeChars (v : Text) : Text :=
  v.flatMap fun c => if c = '\\' ∨ c = '\'' then ['\\', c] else [c]

/-- `escape_conninfo_value` -/
def escapeConninfoValue (v : Text) : Except ConninfoError Text :=
  if '\x00' ∈ v then .error .containsNul else .ok ('\'' :: (escapeChars v ++ ['\'']))

/-- `add_kv` -/
def addKv (out k ev : Text) : Text := (if out ≠ [] then out ++ [' '] else out) ++ (k ++ '=' :: ev)

/-- A value escaped and added. -/
def addValue (out : Text) (k : Keyword) (v : Text) : Except ConninfoError Text := do
  let ev ← escapeConninfoValue v
  return addKv out k.text ev

/-- A value added if there is one. -/
def addOptional (out : Text) (k : Keyword) (v : Option Text) : Except ConninfoError Text :=
  match v with
  | none => .ok out
  | some v => addValue out k v

/-- `add_int` -/
def addInt (out : Text) (k : Keyword) (v : Int) : Except ConninfoError Text :=
  addValue out k (Decimal.text v)

/-- The three branches of `make_conninfo` that write the host. -/
def addHost (inetPton : AddressFamily → Text → Bool) (host : Text) (ssl : SSLConfig) :
    Except ConninfoError Text :=
  let hostRaw := stripBrackets host
  let hostIsIp := isIpLiteral inetPton hostRaw
  match ssl.serverHostname with
  | some name =>
      if hostIsIp then do
        let ci ← addValue [] .hostaddr hostRaw
        addValue ci .host name
      else addValue [] .host name
  | none => addValue [] .host hostRaw

/-- `make_conninfo` -/
def makeConninfo (inetPton : AddressFamily → Text → Bool) (host port user dbname password : Text)
    (ssl : SSLConfig) (keepalive : TCPKeepaliveConfig) : Except ConninfoError Text := do
  let ci ← addHost inetPton host ssl
  let ci ← addValue ci .port port
  let ci ← addValue ci .user user
  let ci ← addValue ci .dbname dbname
  let ci ← addValue ci .password password
  let ci ← addValue ci .sslmode ssl.mode.text
  let ci ← addOptional ci .sslrootcert ssl.rootCert
  let ci ← addOptional ci .sslcert ssl.clientCert
  let ci ← addOptional ci .sslkey ssl.clientKey
  let ci ← addOptional ci .sslcrl ssl.crl
  if keepalive.enabled then do
    let ci ← addInt ci .keepalives 1
    let ci ← addInt ci .keepalivesIdle keepalive.idle
    let ci ← addInt ci .keepalivesInterval keepalive.interval
    addInt ci .keepalivesCount keepalive.count
  else return ci

/-- The connection string of an endpoint. -/
def Endpoint.conninfo (inetPton : AddressFamily → Text → Bool) (ssl : SSLConfig)
    (keepalive : TCPKeepaliveConfig) (ep : Endpoint) : Except ConninfoError Text :=
  makeConninfo inetPton ep.host ep.port ep.user ep.db ep.password ssl keepalive

/-! ## The inserted pairs -/

/-- The pairs that say where to connect. -/
def hostPairs (inetPton : AddressFamily → Text → Bool) (ssl : SSLConfig) (host : Text) :
    List (Keyword × Text) :=
  match ssl.serverHostname with
  | some name =>
      if isIpLiteral inetPton (stripBrackets host) then
        [(.hostaddr, stripBrackets host), (.host, name)]
      else [(.host, name)]
  | none => [(.host, stripBrackets host)]

def optionalPair (k : Keyword) (v : Option Text) : List (Keyword × Text) :=
  (v.map fun text => (k, text)).toList

/-- The other pairs. -/
def otherPairs (ssl : SSLConfig) (keepalive : TCPKeepaliveConfig) (ep : Endpoint) :
    List (Keyword × Text) :=
  [(.port, ep.port), (.user, ep.user), (.dbname, ep.db), (.password, ep.password),
      (.sslmode, ssl.mode.text)] ++
    (optionalPair .sslrootcert ssl.rootCert ++ (optionalPair .sslcert ssl.clientCert ++
      (optionalPair .sslkey ssl.clientKey ++ (optionalPair .sslcrl ssl.crl ++
        if keepalive.enabled then
          [(.keepalives, Decimal.text 1), (.keepalivesIdle, Decimal.text keepalive.idle),
            (.keepalivesInterval, Decimal.text keepalive.interval),
            (.keepalivesCount, Decimal.text keepalive.count)]
        else []))))

/-- All pairs of the connection string of an endpoint, in order. -/
def insertedPairs (inetPton : AddressFamily → Text → Bool) (ssl : SSLConfig)
    (keepalive : TCPKeepaliveConfig) (ep : Endpoint) : List (Keyword × Text) :=
  hostPairs inetPton ssl ep.host ++ otherPairs ssl keepalive ep

/-- Pairs with their keys spelled out. -/
def spelled (pairs : List (Keyword × Text)) : Settings := pairs.map fun p => (p.1.text, p.2)

/-- The pairs of a list, added one after the other. -/
def addAll (out : Text) (pairs : List (Keyword × Text)) : Except ConninfoError Text :=
  pairs.foldlM (fun ci p => addValue ci p.1 p.2) out

theorem addAll_append (out : Text) (front pairs : List (Keyword × Text)) :
    addAll out (front ++ pairs) = addAll out front >>= fun ci => addAll ci pairs :=
  List.foldlM_append

theorem addAll_cons (out : Text) (p : Keyword × Text) (pairs : List (Keyword × Text)) :
    addAll out (p :: pairs) = addValue out p.1 p.2 >>= fun ci => addAll ci pairs :=
  rfl

theorem addAll_nil (out : Text) : addAll out [] = pure out := rfl

theorem addAll_singleton (out : Text) (p : Keyword × Text) :
    addAll out [p] = addValue out p.1 p.2 := by
  rw [addAll_cons]
  exact bind_pure _

theorem addOptional_eq (out : Text) (k : Keyword) (v : Option Text) :
    addOptional out k v = addAll out (optionalPair k v) := by
  cases v with
  | none => rfl
  | some v => exact (addAll_singleton out (k, v)).symm

theorem addHost_eq (inetPton : AddressFamily → Text → Bool) (host : Text) (ssl : SSLConfig) :
    addHost inetPton host ssl = addAll [] (hostPairs inetPton ssl host) := by
  rw [addHost, hostPairs]
  split
  · split
    · rw [addAll_cons]
      simp only [addAll_singleton]
    · exact (addAll_singleton [] (.host, _)).symm
  · exact (addAll_singleton [] (.host, _)).symm

/-- `make_conninfo` adds the inserted pairs and nothing else. -/
theorem conninfo_eq_addAll (inetPton : AddressFamily → Text → Bool) (ssl : SSLConfig)
    (keepalive : TCPKeepaliveConfig) (ep : Endpoint) :
    ep.conninfo inetPton ssl keepalive =
      addAll [] (insertedPairs inetPton ssl keepalive ep) := by
  rw [insertedPairs, addAll_append, Endpoint.conninfo, makeConninfo, addHost_eq]
  cases henabled : keepalive.enabled with
  | false =>
      simp only [otherPairs, henabled, addAll_append, addAll_cons, addAll_nil, addOptional_eq,
        bind_assoc, pure_bind, Bool.false_eq_true, if_false]
  | true =>
      simp only [otherPairs, henabled, addAll_append, addAll_cons, addAll_nil, addOptional_eq,
        bind_assoc, if_true, addInt, bind_pure]

/-! ## The string -/

/-- One pair as it is written. -/
def pairText (p : Keyword × Text) : Text :=
  p.1.text ++ '=' :: '\'' :: (escapeChars p.2 ++ ['\''])

theorem Keyword.text_ne_nil (k : Keyword) : k.text ≠ [] := by
  cases k <;> decide

theorem Keyword.plain_text (k : Keyword) : ∀ c ∈ k.text, Plain c :=
  forall_of_all (by cases k <;> decide)

theorem pairText_ne_nil (p : Keyword × Text) : pairText p ≠ [] :=
  List.append_ne_nil_of_left_ne_nil p.1.text_ne_nil _

section

variable {pairs : List (Keyword × Text)} {out : Text}

theorem addValue_of_nul {k : Keyword} {v : Text} (h : '\x00' ∈ v) :
    addValue out k v = .error .containsNul := by
  rw [addValue, escapeConninfoValue, if_pos h]
  rfl

theorem addValue_of_not_nul {k : Keyword} {v : Text} (h : '\x00' ∉ v) :
    addValue out k v = .ok ((if out ≠ [] then out ++ [' '] else out) ++ pairText (k, v)) := by
  rw [addValue, escapeConninfoValue, if_neg h]
  rfl

theorem addAll_of_nul (h : ∃ p ∈ pairs, '\x00' ∈ p.2) : addAll out pairs = .error .containsNul := by
  induction pairs generalizing out with
  | nil =>
      obtain ⟨p, hp, -⟩ := h
      cases hp
  | cons q pairs ih =>
      rw [addAll_cons]
      by_cases hq : '\x00' ∈ q.2
      · rw [addValue_of_nul hq]
        rfl
      · rw [addValue_of_not_nul hq]
        obtain ⟨p, hp, hnul⟩ := h
        rcases List.mem_cons.mp hp with rfl | hmem
        · exact absurd hnul hq
        · exact ih ⟨p, hmem, hnul⟩

theorem addAll_of_not_nul (hout : out ≠ []) (h : ∀ p ∈ pairs, '\x00' ∉ p.2) :
    addAll out pairs = .ok (out ++ pairs.flatMap fun p => ' ' :: pairText p) := by
  induction pairs generalizing out with
  | nil => simp [addAll_nil, pure, Except.pure]
  | cons q pairs ih =>
      have hq := h q List.mem_cons_self
      have hne : out ++ [' '] ++ pairText q ≠ [] :=
        List.append_ne_nil_of_right_ne_nil _ (pairText_ne_nil q)
      have hrest := ih hne fun p hp => h p (List.mem_cons_of_mem q hp)
      rw [addAll_cons, addValue_of_not_nul hq, if_pos hout]
      exact hrest.trans (by simp)

/-- The string of a list of pairs: the pairs, with a space between two of them. -/
theorem addAll_nil_cons (q : Keyword × Text) (h : ∀ p ∈ q :: pairs, '\x00' ∉ p.2) :
    addAll [] (q :: pairs) = .ok (pairText q ++ pairs.flatMap fun p => ' ' :: pairText p) := by
  rw [addAll_cons, addValue_of_not_nul (h q List.mem_cons_self)]
  exact addAll_of_not_nul (pairText_ne_nil q) fun p hp => h p (List.mem_cons_of_mem q hp)

/-! ## Read by libpq -/

variable {s : Settings}

theorem Reader.read_escapeChars {key value : Text} {w : Text} (h : '\x00' ∉ w) :
    (⟨s, .quoted key value⟩ : Reader).read (escapeChars w) =
      some ⟨s, .quoted key (value ++ w)⟩ := by
  have hspell : ∀ c ∈ w, ∀ held,
      (⟨s, .quoted key held⟩ : Reader).read
          (if c = '\\' ∨ c = '\'' then ['\\', c] else [c]) =
        some ⟨s, .quoted key (held ++ [c])⟩ := by
    intro c hc held
    have hnul : c ≠ '\x00' := fun heq => h (heq ▸ hc)
    split
    · simp [Reader.read_cons, Reader.next, hnul]
    · rename_i hplain
      rw [not_or] at hplain
      simp [Reader.read_cons, Reader.next, hnul, hplain.1, hplain.2]
  exact foldlM_flatMap_of_hold hspell value

theorem Reader.read_pairText {p : Keyword × Text} (h : '\x00' ∉ p.2) :
    (⟨s, .gap⟩ : Reader).read (pairText p) = some ⟨s ++ [(p.1.text, p.2)], .gap⟩ := by
  have hquote : (⟨s, .afterEq p.1.text⟩ : Reader).next '\'' = some ⟨s, .quoted p.1.text []⟩ := rfl
  rw [pairText, List.append_cons, Reader.read_append,
    Reader.read_key p.1.text_ne_nil p.1.plain_text, Option.bind_some, Reader.read_cons, hquote,
    Option.bind_some, Reader.read_append, Reader.read_escapeChars h]
  rfl

theorem Reader.read_pairs (h : ∀ p ∈ pairs, '\x00' ∉ p.2) :
    (⟨s, .gap⟩ : Reader).read (pairs.flatMap fun p => ' ' :: pairText p) =
      some ⟨s ++ spelled pairs, .gap⟩ := by
  induction pairs generalizing s with
  | nil => simp [spelled]
  | cons q pairs ih =>
      have hspace : (⟨s, .gap⟩ : Reader).next ' ' = some ⟨s, .gap⟩ := rfl
      rw [List.flatMap_cons, List.cons_append, Reader.read_cons, hspace, Option.bind_some,
        Reader.read_append, Reader.read_pairText (h q List.mem_cons_self), Option.bind_some,
        ih fun p hp => h p (List.mem_cons_of_mem q hp)]
      simp [spelled]

/-! ## Read by the scanner -/

theorem quotedRest_escapeChars (w rest : Text) :
    QuotedRest (escapeChars w ++ '\'' :: rest) rest := by
  induction w with
  | nil => exact .close rest
  | cons c w ih =>
      rw [escapeChars, List.flatMap_cons, ← escapeChars]
      split
      · exact .escape c ih
      · rename_i hplain
        rw [not_or] at hplain
        exact .plain hplain.1 hplain.2 ih

theorem Keyword.text_ne_connectTimeout (k : Keyword) : k.text ≠ connectTimeout := by
  cases k <;> decide

/-- The scanner goes over a pair to what is behind it. -/
theorem hasConnectTimeout_pairText (p : Keyword × Text) (rest : Text) :
    hasConnectTimeout (pairText p ++ rest) = true ↔ hasConnectTimeout rest = true := by
  have htext : pairText p ++ rest =
      p.1.text ++ '=' :: '\'' :: (escapeChars p.2 ++ '\'' :: rest) := by
    simp [pairText]
  have hkey : ∀ c ∈ p.1.text, inKey c = true :=
    fun c hc => (inKey_of_plain (p.1.plain_text c hc)).2
  rw [htext, hasConnectTimeout_pair (dropWhile_key hkey), takeWhile_key p.1.plain_text,
    or_iff_right p.1.text_ne_connectTimeout, skipValue_quote,
    skipQuoted_of_quotedRest (quotedRest_escapeChars p.2 rest)]

theorem hasConnectTimeout_pairs (pairs : List (Keyword × Text)) :
    hasConnectTimeout (pairs.flatMap fun p => ' ' :: pairText p) = false := by
  induction pairs with
  | nil =>
      rw [List.flatMap_nil, hasConnectTimeout_eq]
      rfl
  | cons q pairs ih =>
      have hblank : isBlank ' ' = true := rfl
      rw [List.flatMap_cons, List.cons_append, hasConnectTimeout_blank hblank,
        Bool.eq_false_iff, ne_eq, hasConnectTimeout_pairText, ← ne_eq, ← Bool.eq_false_iff, ih]

end

/-! ## No injection -/

theorem insertedPairs_ne_nil (inetPton : AddressFamily → Text → Bool) (ssl : SSLConfig)
    (keepalive : TCPKeepaliveConfig) (ep : Endpoint) :
    insertedPairs inetPton ssl keepalive ep ≠ [] :=
  List.append_ne_nil_of_right_ne_nil _ (List.cons_ne_nil _ _)

/-- What the string of a list of pairs says, and that it is not open at the end. -/
theorem addAll_read {pairs : List (Keyword × Text)} (hne : pairs ≠ [])
    (h : ∀ p ∈ pairs, '\x00' ∉ p.2) :
    ∃ ci, addAll [] pairs = .ok ci ∧ Reader.start.read ci = some ⟨spelled pairs, .gap⟩ ∧
      hasConnectTimeout ci = false := by
  obtain ⟨q, pairs, rfl⟩ := List.exists_cons_of_ne_nil hne
  refine ⟨_, addAll_nil_cons q h, ?_, ?_⟩
  · rw [Reader.read_append, Reader.start, Reader.read_pairText (h q List.mem_cons_self),
      Option.bind_some, Reader.read_pairs fun p hp => h p (List.mem_cons_of_mem q hp)]
    rfl
  · rw [Bool.eq_false_iff, ne_eq, hasConnectTimeout_pairText, hasConnectTimeout_pairs]
    exact Bool.false_ne_true

/-- **Connection strings cannot be injected into.**  A NUL in an inserted value is refused;
otherwise the string says the inserted pairs and nothing else, the scanner finds no timeout
in it, and the appended timeout is one more pair. -/
theorem conninfo_not_injectable (inetPton : AddressFamily → Text → Bool) (ssl : SSLConfig)
    (keepalive : TCPKeepaliveConfig) (ep : Endpoint) :
    ((∃ p ∈ insertedPairs inetPton ssl keepalive ep, '\x00' ∈ p.2) →
        ep.conninfo inetPton ssl keepalive = .error .containsNul) ∧
      ((∀ p ∈ insertedPairs inetPton ssl keepalive ep, '\x00' ∉ p.2) →
        ∃ ci, ep.conninfo inetPton ssl keepalive = .ok ci ∧
          settings ci = some (spelled (insertedPairs inetPton ssl keepalive ep)) ∧
          hasConnectTimeout ci = false ∧
          ∀ timeout, settings (conninfoWithTo ci timeout) =
            some (spelled (insertedPairs inetPton ssl keepalive ep) ++
              [(connectTimeout, Decimal.text (budgetSeconds timeout))])) := by
  rw [conninfo_eq_addAll]
  refine ⟨addAll_of_nul, fun h => ?_⟩
  obtain ⟨ci, hci, hread, hscan⟩ := addAll_read (insertedPairs_ne_nil inetPton ssl keepalive ep) h
  have hsettings : settings ci = some (spelled (insertedPairs inetPton ssl keepalive ep)) := by
    rw [settings, hread]
    rfl
  refine ⟨ci, hci, hsettings, hscan, fun timeout => ?_⟩
  have hclosed : ¬ OpenEnded ci := by
    rintro ⟨r, hr, hplace⟩
    rw [hread] at hr
    cases hr
    rcases hplace with ⟨key, hkey⟩ | ⟨key, v, hkey⟩ <;> cases hkey
  rw [conninfoWithTo_eq, hscan, if_neg Bool.false_ne_true]
  exact settings_timeout_closed hsettings hclosed (Decimal.text_ne_nil _)
    fun c hc => plainValue_of_mem_text hc

/-! ## The network target -/

/-- The host libpq connects to: `hostaddr` if it is given, otherwise `host`. -/
def target (ci : Text) : Option Text :=
  (settings ci).bind fun s => (lookup s Keyword.hostaddr.text).or (lookup s Keyword.host.text)

/-- The endpoint's own host is the one written: no name is set that would replace it, or it
is an address literal, or the name is the host. -/
def OwnHost (inetPton : AddressFamily → Text → Bool) (ssl : SSLConfig) (host : Text) : Prop :=
  ∀ name, ssl.serverHostname = some name →
    isIpLiteral inetPton (stripBrackets host) = true ∨ name = stripBrackets host

theorem lookup_append (s more : Settings) (key : Text) :
    lookup (s ++ more) key = (lookup more key).or (lookup s key) := by
  rw [lookup, List.reverse_append, List.lookup_append]
  rfl

theorem lookup_eq_none {s : Settings} {key : Text} (h : ∀ p ∈ s, p.1 ≠ key) :
    lookup s key = none := by
  rw [lookup, List.lookup_eq_none_iff]
  intro p hp
  simpa using (h p (List.mem_reverse.mp hp)).symm

/-- The two keys that say where to connect. -/
def Keyword.isHost (k : Keyword) : Bool := k = .host || k = .hostaddr

theorem Keyword.isHost_of_text {k l : Keyword} (h : k.text = l.text) (hl : l.isHost = true) :
    k.isHost = true := by
  rw [Keyword.isHost, Bool.or_eq_true, decide_eq_true_eq, decide_eq_true_eq] at hl
  rcases hl with rfl | rfl <;> revert h <;> cases k <;> decide

theorem mem_optionalPair {k : Keyword} {v : Option Text} {p : Keyword × Text}
    (h : p ∈ optionalPair k v) : p.1 = k := by
  obtain ⟨text, -, rfl⟩ := Option.map_eq_some_iff.mp (Option.mem_toList.mp h)
  rfl

/-- The other pairs do not say where to connect. -/
theorem otherPairs_not_host {ssl : SSLConfig} {keepalive : TCPKeepaliveConfig} {ep : Endpoint}
    {p : Keyword × Text} (h : p ∈ otherPairs ssl keepalive ep) : p.1.isHost = false := by
  simp only [otherPairs, List.mem_append, List.mem_cons, List.not_mem_nil, or_false] at h
  rcases h with (rfl | rfl | rfl | rfl | rfl) | h | h | h | h | h
  iterate 5 rfl
  iterate 4
    rw [mem_optionalPair h]
    rfl
  split at h
  · simp only [List.mem_cons, List.not_mem_nil, or_false] at h
    rcases h with rfl | rfl | rfl | rfl <;> rfl
  · cases h

section

variable {inetPton : AddressFamily → Text → Bool} {ssl : SSLConfig}
  {keepalive : TCPKeepaliveConfig} {ep : Endpoint} {ci : Text}

theorem lookup_inserted {k : Keyword} (hk : k.isHost = true) :
    lookup (spelled (insertedPairs inetPton ssl keepalive ep)) k.text =
      lookup (spelled (hostPairs inetPton ssl ep.host)) k.text := by
  have hother : lookup (spelled (otherPairs ssl keepalive ep)) k.text = none := by
    refine lookup_eq_none fun q hq htext => ?_
    obtain ⟨p, hp, rfl⟩ := List.mem_map.mp hq
    have hhost := Keyword.isHost_of_text htext hk
    rw [otherPairs_not_host hp] at hhost
    cases hhost
  rw [insertedPairs, spelled, List.map_append, ← spelled, ← spelled, lookup_append, hother,
    Option.none_or]

/-- The host that is written: the endpoint's own, or the name in its place. -/
theorem target_conninfo (h : ep.conninfo inetPton ssl keepalive = .ok ci) :
    target ci =
      match ssl.serverHostname with
      | some name =>
          if isIpLiteral inetPton (stripBrackets ep.host) then some (stripBrackets ep.host)
          else some name
      | none => some (stripBrackets ep.host) := by
  have hnul : ∀ p ∈ insertedPairs inetPton ssl keepalive ep, '\x00' ∉ p.2 := by
    intro p hp hp0
    rw [conninfo_eq_addAll, addAll_of_nul ⟨p, hp, hp0⟩] at h
    cases h
  obtain ⟨ci', hci, hread, -⟩ := addAll_read (insertedPairs_ne_nil inetPton ssl keepalive ep) hnul
  rw [conninfo_eq_addAll, hci] at h
  cases h
  rw [target, settings, hread, Option.bind_some, Reader.finish, Option.bind_some,
    lookup_inserted (k := .hostaddr) rfl, lookup_inserted (k := .host) rfl, hostPairs]
  split
  · split <;> rfl
  · rfl

/-- The endpoint's own host is the target exactly if nothing replaces it. -/
theorem target_own_iff (h : ep.conninfo inetPton ssl keepalive = .ok ci) :
    target ci = some (stripBrackets ep.host) ↔ OwnHost inetPton ssl ep.host := by
  rw [target_conninfo h, OwnHost]
  cases ssl.serverHostname with
  | none => simp
  | some name =>
      by_cases hip : isIpLiteral inetPton (stripBrackets ep.host) = true
      · simp [hip]
      · simp [hip]

end

/-- **Different endpoints stay different exactly if neither host is replaced.** -/
theorem targets_own_iff (inetPton : AddressFamily → Text → Bool) (ssl : SSLConfig)
    (keepalive : TCPKeepaliveConfig) (a b : Endpoint) (ciA ciB : Text)
    (ha : a.conninfo inetPton ssl keepalive = .ok ciA)
    (hb : b.conninfo inetPton ssl keepalive = .ok ciB)
    (hdiff : stripBrackets a.host ≠ stripBrackets b.host) :
    (target ciA ≠ target ciB ∧ target ciA = some (stripBrackets a.host) ∧
        target ciB = some (stripBrackets b.host)) ↔
      OwnHost inetPton ssl a.host ∧ OwnHost inetPton ssl b.host := by
  rw [← target_own_iff ha, ← target_own_iff hb]
  refine and_iff_right_of_imp ?_
  rintro ⟨hA, hB⟩ hsame
  rw [hA, hB] at hsame
  exact hdiff (Option.some.inj hsame)

/-- A database server under a host. -/
def serverNamed (host : Text) : Endpoint :=
  ⟨host, "5432".toList, "app".toList, "app".toList, "secret".toList⟩

/-- An `inet_pton` that knows the addresses 10.0.0.1 and 10.0.0.2. -/
def twoAddresses (family : AddressFamily) (text : Text) : Bool :=
  family = .inet && (text = "10.0.0.1".toList || text = "10.0.0.2".toList)

def namedConfig : SSLConfig := { mode := .verifyFull, serverHostname := some "pg.example".toList }

theorem targets_own_iff_addresses :
    ∃ ciA ciB, (serverNamed "10.0.0.1".toList).conninfo twoAddresses namedConfig {} = .ok ciA ∧
      (serverNamed "[10.0.0.2]".toList).conninfo twoAddresses namedConfig {} = .ok ciB ∧
      target ciA ≠ target ciB ∧ target ciA = some "10.0.0.1".toList ∧
        target ciB = some "10.0.0.2".toList := by
  have hownA : OwnHost twoAddresses namedConfig "10.0.0.1".toList := fun _ _ => .inl (by decide)
  have hownB : OwnHost twoAddresses namedConfig "[10.0.0.2]".toList := fun _ _ => .inl (by decide)
  refine ⟨_, _, rfl, rfl, ?_⟩
  exact (targets_own_iff twoAddresses namedConfig {} (serverNamed "10.0.0.1".toList)
    (serverNamed "[10.0.0.2]".toList) _ _ rfl rfl (by decide)).mpr ⟨hownA, hownB⟩

/-- With a name set, two servers given by name are one. -/
theorem targets_replaced :
    ∃ ciA ciB, (serverNamed "db1".toList).conninfo twoAddresses namedConfig {} = .ok ciA ∧
      (serverNamed "db2".toList).conninfo twoAddresses namedConfig {} = .ok ciB ∧
      stripBrackets "db1".toList ≠ stripBrackets "db2".toList ∧
      target ciA = some "pg.example".toList ∧ target ciB = some "pg.example".toList := by
  obtain ⟨ciA, hA⟩ : ∃ ci,
      (serverNamed "db1".toList).conninfo twoAddresses namedConfig {} = .ok ci := ⟨_, rfl⟩
  obtain ⟨ciB, hB⟩ : ∃ ci,
      (serverNamed "db2".toList).conninfo twoAddresses namedConfig {} = .ok ci := ⟨_, rfl⟩
  refine ⟨ciA, ciB, hA, hB, by decide, ?_, ?_⟩
  · exact (target_conninfo hA).trans (by decide)
  · exact (target_conninfo hB).trans (by decide)

end Upq.Conninfo
