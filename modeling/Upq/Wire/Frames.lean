/-
  Wire/Frames.lean --- message frames, built and read back.

  Source: `src/upq/PgTypes.cpp`, `write_be32`, `read_be32`, `build_password_message` and
  `build_simple_query`; `include/upq/PgTypes.h`, `read_exact` and `read_frame`.

  A socket is the bytes still to come together with the sizes of its reads: each
  `async_read` hands over at least one byte and at most what was asked for, until the
  stream ends.  `read_exact` depends on the bytes only (`readExact_ok`,
  `readExact_short`), so a frame is read back whatever the sizes are.
-/
import Upq.Types
import Upq.Params.ArrayText

set_option autoImplicit false

namespace Upq.Wire

open Upq.ArrayText (Bytes)

/-! ## Big-endian words -/

/-- `write_be32` -/
def writeBe32 (v : UInt32) : Bytes :=
  [((v >>> 24) &&& 0xFF).toUInt8, ((v >>> 16) &&& 0xFF).toUInt8,
    ((v >>> 8) &&& 0xFF).toUInt8, ((v >>> 0) &&& 0xFF).toUInt8]

/-- `read_be32`, with `src[0]` to `src[3]` as arguments -/
def readBe32 (b₀ b₁ b₂ b₃ : UInt8) : UInt32 :=
  (b₀.toUInt32 <<< 24) ||| (b₁.toUInt32 <<< 16) ||| (b₂.toUInt32 <<< 8) ||| (b₃.toUInt32 <<< 0)

@[simp] theorem length_writeBe32 (v : UInt32) : (writeBe32 v).length = 4 := rfl

theorem toNat_and_toUInt8 (v : UInt32) : ((v &&& 0xFF).toUInt8).toNat = v.toNat % 256 := by
  have hmask : v.toNat % 256 &&& (2 ^ 8 - 1) = v.toNat % 256 := by
    rw [Nat.and_two_pow_sub_one_eq_mod, Nat.mod_mod]
  simpa using hmask

/-- A byte shifted above the low bits is added to them. -/
theorem shiftLeft_or (b : UInt8) {k low : Nat} (hk : k ≤ 24) (hlow : low < 2 ^ k) :
    (b.toNat <<< k % 2 ^ 32) ||| low = b.toNat * 2 ^ k + low := by
  have hlt : b.toNat * 2 ^ k < 2 ^ 32 :=
    calc b.toNat * 2 ^ k < 2 ^ 8 * 2 ^ k :=
          Nat.mul_lt_mul_of_pos_right b.toNat_lt (Nat.two_pow_pos k)
      _ = 2 ^ (8 + k) := (Nat.pow_add 2 8 k).symm
      _ ≤ 2 ^ 32 := Nat.pow_le_pow_right (by decide) (by omega)
  have hshift : b.toNat <<< k % 2 ^ 32 = b.toNat <<< k := by
    rw [Nat.shiftLeft_eq, Nat.mod_eq_of_lt hlt]
  rw [hshift, ← Nat.shiftLeft_add_eq_or_of_lt hlow, Nat.shiftLeft_eq]

theorem toNat_readBe32 (b₀ b₁ b₂ b₃ : UInt8) :
    (readBe32 b₀ b₁ b₂ b₃).toNat =
      b₀.toNat * 2 ^ 24 + (b₁.toNat * 2 ^ 16 + (b₂.toNat * 2 ^ 8 + b₃.toNat)) := by
  have h₁ := b₁.toNat_lt
  have h₂ := b₂.toNat_lt
  have h₃ := b₃.toNat_lt
  have hbits : (readBe32 b₀ b₁ b₂ b₃).toNat =
      b₀.toNat <<< 24 % 2 ^ 32 |||
        (b₁.toNat <<< 16 % 2 ^ 32 ||| (b₂.toNat <<< 8 % 2 ^ 32 ||| b₃.toNat)) := by
    simp [readBe32, Nat.or_assoc]
  rw [hbits, shiftLeft_or b₂ (by decide) h₃, shiftLeft_or b₁ (by decide) (by omega),
    shiftLeft_or b₀ (by decide) (by omega)]

/-- The two functions are inverse to each other. -/
theorem writeBe32_eq_iff (v : UInt32) (b₀ b₁ b₂ b₃ : UInt8) :
    writeBe32 v = [b₀, b₁, b₂, b₃] ↔ v = readBe32 b₀ b₁ b₂ b₃ := by
  have h₀ := b₀.toNat_lt
  have h₁ := b₁.toNat_lt
  have h₂ := b₂.toNat_lt
  have h₃ := b₃.toNat_lt
  have hv := v.toNat_lt
  have hread := toNat_readBe32 b₀ b₁ b₂ b₃
  have hbytes : writeBe32 v = [b₀, b₁, b₂, b₃] ↔
      v.toNat / 2 ^ 24 % 256 = b₀.toNat ∧ v.toNat / 2 ^ 16 % 256 = b₁.toNat ∧
        v.toNat / 2 ^ 8 % 256 = b₂.toNat ∧ v.toNat / 2 ^ 0 % 256 = b₃.toNat := by
    simp only [writeBe32, List.cons.injEq, and_true, ← UInt8.toNat_inj, toNat_and_toUInt8,
      UInt32.toNat_shiftRight, Nat.shiftRight_eq_div_pow]
    rfl
  rw [hbytes, ← UInt32.toNat_inj]
  omega

theorem readBe32_writeBe32 (v : UInt32) :
    readBe32 ((writeBe32 v).getD 0 0) ((writeBe32 v).getD 1 0) ((writeBe32 v).getD 2 0)
      ((writeBe32 v).getD 3 0) = v :=
  ((writeBe32_eq_iff v _ _ _ _).mp rfl).symm

theorem writeBe32_injective : Function.Injective writeBe32 := by
  intro v w h
  rw [← readBe32_writeBe32 v, h, readBe32_writeBe32]

/-- The first four bytes are a word. -/
theorem exists_word {bytes : Bytes} (h : 4 ≤ bytes.length) :
    ∃ v rest, bytes = writeBe32 v ++ rest := by
  match bytes, h with
  | b₀ :: b₁ :: b₂ :: b₃ :: rest, _ =>
      refine ⟨readBe32 b₀ b₁ b₂ b₃, rest, ?_⟩
      rw [(writeBe32_eq_iff _ b₀ b₁ b₂ b₃).mpr rfl]
      rfl

/-! ## Building -/

/-- What `build_password_message` and `build_simple_query` append: the type, the length
with itself and the final NUL, the text and the NUL. -/
def buildMessage (type : UInt8) (text : Bytes) : Bytes :=
  let len : UInt32 := 4 + UInt32.ofNat text.length + 1
  type :: (writeBe32 len ++ (text ++ [0]))

/-- `build_simple_query` -/
def buildSimpleQuery (sql : Bytes) : Bytes := buildMessage 'Q'.toUInt8 sql

/-- `build_password_message` -/
def buildPasswordMessage (password : Bytes) : Bytes := buildMessage 'p'.toUInt8 password

/-! ## Reading from a socket -/

/-- The bytes still to come, how many the `k`-th read hands over when more are asked for
and present, and what a read returns once the stream has ended. -/
structure Socket where
  stream : Bytes
  sizes : Nat → Nat
  sizes_pos : ∀ k, 0 < sizes k
  ended : Int
  ended_le : ended ≤ 0

/-- The socket after `r` more bytes were handed over. -/
def Socket.after (sock : Socket) (r : Nat) : Socket where
  stream := sock.stream.drop r
  sizes k := sock.sizes (k + 1)
  sizes_pos k := sock.sizes_pos (k + 1)
  ended := sock.ended
  ended_le := sock.ended_le

/-- `sock.async_read(tmp, n)`: the result, the bytes in `tmp`, and the socket after. -/
def Socket.asyncRead (sock : Socket) (n : Nat) : Int × Bytes × Socket :=
  if sock.stream = [] then (sock.ended, [], sock)
  else
    let r := min (sock.sizes 0) (min n sock.stream.length)
    ((r : Int), sock.stream.take r, sock.after r)

/-- `PgWireError` -/
structure PgWireError where
  code : PgErrorCode
  message : String
  deriving DecidableEq, Repr

/-- `PgWireResult` -/
structure PgWireResult (α : Type) where
  ok : Bool
  value : α
  err : PgWireError
  deriving DecidableEq, Repr

/-- `std::memcpy(buf.data() + off, tmp.data(), r)` -/
def memcpy (buf : Bytes) (off : Nat) (tmp : Bytes) : Bytes :=
  buf.take off ++ (tmp ++ buf.drop (off + tmp.length))

/-- The loop of `read_exact`. -/
def readExactLoop (sock : Socket) (n off : Nat) (buf : Bytes) :
    PgWireResult Unit × Bytes × Socket :=
  if off < n then
    match sock.asyncRead (n - off) with
    | (r, tmp, sock') =>
        if r ≤ 0 then
          (⟨false, (), ⟨.socketReadFailed, "async_read returned <=0"⟩⟩, buf, sock')
        else readExactLoop sock' n (off + r.toNat) (memcpy buf off tmp)
  else (⟨true, (), ⟨.unknown, ""⟩⟩, buf, sock)
termination_by n - off
decreasing_by omega

/-- `read_exact`: the result, `buf` and the socket after -/
def readExact (sock : Socket) (n : Nat) : PgWireResult Unit × Bytes × Socket :=
  readExactLoop sock n 0 (List.replicate n 0)

/-- `kMaxPgFramePayload` -/
def kMaxPgFramePayload : UInt32 := 512 * 1024 * 1024

/-- `PgFrame` -/
structure PgFrame where
  type : UInt8
  payload : Bytes
  deriving DecidableEq, Repr

/-- `PgFrame{}` -/
def PgFrame.empty : PgFrame := ⟨0, []⟩

/-- `read_frame` -/
def readFrame (sock : Socket) : PgWireResult PgFrame × Socket :=
  match readExact sock 5 with
  | (hdrRes, header, sock) =>
      if !hdrRes.ok then (⟨false, .empty, hdrRes.err⟩, sock)
      else
        let type := header.getD 0 0
        let len := readBe32 (header.getD 1 0) (header.getD 2 0) (header.getD 3 0) (header.getD 4 0)
        if len < 4 then (⟨false, .empty, ⟨.protocolCorrupt, "frame length < 4"⟩⟩, sock)
        else
          let payloadLen := len - 4
          if payloadLen > kMaxPgFramePayload then
            (⟨false, .empty, ⟨.protocolCorrupt, "frame length exceeds kMaxPgFramePayload"⟩⟩, sock)
          else
            match readExact sock payloadLen.toNat with
            | (payRes, payload, sock) =>
                if !payRes.ok then (⟨false, .empty, payRes.err⟩, sock)
                else (⟨true, ⟨type, payload⟩, ⟨.unknown, ""⟩⟩, sock)

/-! ## What `read_exact` does -/

/-- **Step rule.**  A read before the end of the stream moves some bytes, at most those
asked for. -/
theorem asyncRead_of_ne_nil (sock : Socket) {n : Nat} (hn : 0 < n) (h : sock.stream ≠ []) :
    ∃ tmp sock', sock.asyncRead n = ((tmp.length : Int), tmp, sock') ∧ 0 < tmp.length ∧
      tmp.length ≤ n ∧ sock.stream = tmp ++ sock'.stream := by
  have hsize := sock.sizes_pos 0
  have hstream := List.length_pos_iff.mpr h
  obtain ⟨r, hr⟩ : ∃ r, min (sock.sizes 0) (min n sock.stream.length) = r := ⟨_, rfl⟩
  have hlen : (sock.stream.take r).length = r := by
    rw [List.length_take]
    omega
  refine ⟨sock.stream.take r, sock.after r, ?_, ?_, ?_, (List.take_append_drop r _).symm⟩
  · rw [hlen, Socket.asyncRead, if_neg h, hr]
  · omega
  · omega

theorem asyncRead_of_nil (sock : Socket) (n : Nat) (h : sock.stream = []) :
    sock.asyncRead n = (sock.ended, [], sock) := by
  rw [Socket.asyncRead, if_pos h]

theorem memcpy_take {buf tmp : Bytes} {off : Nat} (h : off + tmp.length ≤ buf.length) :
    (memcpy buf off tmp).take (off + tmp.length) = buf.take off ++ tmp := by
  have hoff : (buf.take off).length = off := by
    rw [List.length_take]
    omega
  rw [memcpy, ← List.append_assoc]
  exact List.take_left' (by rw [List.length_append, hoff])

theorem length_memcpy {buf tmp : Bytes} {off : Nat} (h : off + tmp.length ≤ buf.length) :
    (memcpy buf off tmp).length = buf.length := by
  simp only [memcpy, List.length_append, List.length_take, List.length_drop]
  omega

/-- Of two ways to cut a list, the one that cuts later goes through the second part. -/
theorem append_split {a b c d : Bytes} (h : a ++ b = c ++ d) (hle : c.length ≤ a.length) :
    ∃ x, a = c ++ x ∧ d = x ++ b := by
  rcases List.append_eq_append_iff.mp h with ⟨x, hc, hb⟩ | ⟨x, ha, hd⟩
  · have hx : x = [] := by
      have hlen := congrArg List.length hc
      rw [List.length_append] at hlen
      exact List.length_eq_zero_iff.mp (by omega)
    subst hx
    exact ⟨[], by simpa using hc.symm, by simpa using hb.symm⟩
  · exact ⟨x, ha, hd⟩

/-- One pass of the loop that got bytes. -/
theorem readExactLoop_step {sock sock' : Socket} {n off : Nat} {buf tmp : Bytes} (hoff : off < n)
    (hread : sock.asyncRead (n - off) = ((tmp.length : Int), tmp, sock')) (htmp : 0 < tmp.length) :
    readExactLoop sock n off buf =
      readExactLoop sock' n (off + tmp.length) (memcpy buf off tmp) := by
  have hpos : ¬ (tmp.length : Int) ≤ 0 := by omega
  rw [readExactLoop, if_pos hoff, hread]
  dsimp only
  rw [if_neg hpos, Int.toNat_natCast]

/-- **Run rule.**  If the stream holds the bytes that are missing, the loop ends with them
in the buffer and leaves the rest of the stream. -/
theorem readExactLoop_ok {n off : Nat} {buf data : Bytes} {sock : Socket} (rest : Bytes)
    (hbuf : buf.length = n) (hoff : off + data.length = n) (h : sock.stream = data ++ rest) :
    ∃ err sock', readExactLoop sock n off buf = (⟨true, (), err⟩, buf.take off ++ data, sock') ∧
      sock'.stream = rest := by
  -- Induction on the number of missing bytes: each read takes some of them.
  induction hk : data.length using Nat.strong_induction_on generalizing off buf data sock with
  | _ k ih =>
      by_cases hdone : data = []
      · subst hdone
        have hfull : ¬ off < n := by
          rw [List.length_nil] at hoff
          omega
        refine ⟨⟨.unknown, ""⟩, sock, ?_, h⟩
        rw [readExactLoop, if_neg hfull, List.append_nil, List.take_of_length_le (by omega)]
      · have hdata := List.length_pos_iff.mpr hdone
        have hne : sock.stream ≠ [] := by
          rw [h]
          exact List.append_ne_nil_of_left_ne_nil hdone rest
        obtain ⟨tmp, sock', hread, hpos, hle, hsplit⟩ :=
          asyncRead_of_ne_nil sock (n := n - off) (by omega) hne
        -- The bytes handed over are the first of the missing ones.
        obtain ⟨more, rfl, hrest⟩ := append_split (h.symm.trans hsplit) (by omega)
        rw [List.length_append] at hoff hk
        have hbuf' : (memcpy buf off tmp).length = n := by rw [length_memcpy (by omega), hbuf]
        have hoff' : off + tmp.length + more.length = n := by omega
        obtain ⟨err, last, hloop, hlast⟩ := ih more.length (by omega) hbuf' hoff' hrest rfl
        refine ⟨err, last, ?_, hlast⟩
        rw [readExactLoop_step (by omega) hread hpos, hloop, memcpy_take (by omega),
          List.append_assoc]

/-- **Run rule.**  If the stream ends too early, the loop reports it. -/
theorem readExactLoop_short {n off : Nat} {buf : Bytes} {sock : Socket}
    (h : off + sock.stream.length < n) :
    (readExactLoop sock n off buf).1 =
      ⟨false, (), ⟨.socketReadFailed, "async_read returned <=0"⟩⟩ := by
  induction hk : sock.stream.length using Nat.strong_induction_on generalizing off buf sock with
  | _ k ih =>
      by_cases hend : sock.stream = []
      · rw [readExactLoop, if_pos (by omega), asyncRead_of_nil sock _ hend]
        dsimp only
        rw [if_pos sock.ended_le]
      · obtain ⟨tmp, sock', hread, hpos, -, hsplit⟩ :=
          asyncRead_of_ne_nil sock (n := n - off) (by omega) hend
        have hlen := congrArg List.length hsplit
        rw [List.length_append] at hlen
        rw [readExactLoop_step (by omega) hread hpos]
        exact ih sock'.stream.length (by omega) (by omega) rfl

theorem readExact_ok {sock : Socket} {data rest : Bytes} (h : sock.stream = data ++ rest) :
    ∃ err sock', readExact sock data.length = (⟨true, (), err⟩, data, sock') ∧
      sock'.stream = rest := by
  have hbuf : (List.replicate data.length (0 : UInt8)).length = data.length :=
    List.length_replicate
  simpa [readExact] using readExactLoop_ok rest hbuf (Nat.zero_add data.length) h

theorem readExact_short {sock : Socket} {n : Nat} (h : sock.stream.length < n) :
    ∃ buf sock', readExact sock n =
      (⟨false, (), ⟨.socketReadFailed, "async_read returned <=0"⟩⟩, buf, sock') :=
  ⟨_, _, Prod.ext (readExactLoop_short (by omega)) rfl⟩

/-! ## What `read_frame` does -/

/-- With a header for a payload of `n` bytes, `n` bytes are read next. -/
theorem readFrame_header {sock : Socket} {type : UInt8} {len : UInt32} {n : Nat} {body : Bytes}
    (h : sock.stream = type :: writeBe32 len ++ body) (hlen : len.toNat = 4 + n)
    (hmax : n ≤ kMaxPgFramePayload.toNat) :
    ∃ sock', sock'.stream = body ∧
      readFrame sock =
        match readExact sock' n with
        | (payRes, payload, after) =>
            if !payRes.ok then (⟨false, .empty, payRes.err⟩, after)
            else (⟨true, ⟨type, payload⟩, ⟨.unknown, ""⟩⟩, after) := by
  obtain ⟨b₀, b₁, b₂, b₃, hbytes⟩ : ∃ b₀ b₁ b₂ b₃, writeBe32 len = [b₀, b₁, b₂, b₃] :=
    ⟨_, _, _, _, rfl⟩
  have hread := (writeBe32_eq_iff len b₀ b₁ b₂ b₃).mp hbytes
  rw [hbytes] at h
  obtain ⟨err, sock', hheader, hbody⟩ := readExact_ok h
  have hfour : ¬ len < 4 := by
    rw [UInt32.lt_iff_toNat_lt]
    exact Nat.not_lt.mpr (by rw [hlen]; exact Nat.le_add_right 4 n)
  have hpayload : (len - 4).toNat = n := by
    rw [UInt32.toNat_sub_of_le _ _ (UInt32.not_lt.mp hfour), hlen]
    exact Nat.add_sub_cancel_left 4 n
  have hfits : ¬ len - 4 > kMaxPgFramePayload := by
    rw [gt_iff_lt, UInt32.lt_iff_toNat_lt, hpayload]
    exact Nat.not_lt.mpr hmax
  refine ⟨sock', hbody, ?_⟩
  have hfive : readExact sock 5 = (⟨true, (), err⟩, [type, b₀, b₁, b₂, b₃], sock') := hheader
  unfold readFrame
  rw [hfive]
  simp only [Bool.not_true, Bool.false_eq_true, if_false, List.getD_cons_zero, List.getD_cons_succ,
    ← hread, hfour, hfits, hpayload]

/-- The length field counts itself, the text and the NUL. -/
theorem toNat_frameLength {text : Bytes} (h : text.length + 1 ≤ kMaxPgFramePayload.toNat) :
    (4 + UInt32.ofNat text.length + 1).toNat = 4 + (text ++ [0]).length := by
  have hmax : kMaxPgFramePayload.toNat = 2 ^ 29 := by decide
  rw [hmax] at h
  rw [List.length_append, List.length_singleton]
  simp only [UInt32.toNat_add, UInt32.toNat_ofNat']
  change ((4 + text.length % 2 ^ 32) % 2 ^ 32 + 1) % 2 ^ 32 = _
  omega

section

variable {type : UInt8} {text : Bytes} {sock : Socket}

theorem readFrame_built (hmax : text.length + 1 ≤ kMaxPgFramePayload.toNat) {rest : Bytes}
    (h : sock.stream = buildMessage type text ++ rest) :
    (readFrame sock).1.ok = true ∧ (readFrame sock).1.value = ⟨type, text ++ [0]⟩ ∧
      (readFrame sock).2.stream = rest := by
  have hstream : sock.stream =
      type :: writeBe32 (4 + UInt32.ofNat text.length + 1) ++ (text ++ [0] ++ rest) := by
    rw [h, buildMessage]
    simp only [List.cons_append, List.append_assoc]
  have hfits : (text ++ [0]).length ≤ kMaxPgFramePayload.toNat := by
    rw [List.length_append]
    exact hmax
  obtain ⟨sock', hbody, hframe⟩ := readFrame_header hstream (toNat_frameLength hmax) hfits
  obtain ⟨err, last, hpayload, hlast⟩ := readExact_ok hbody
  rw [hframe, hpayload]
  exact ⟨rfl, rfl, hlast⟩

theorem readFrame_short (hmax : text.length + 1 ≤ kMaxPgFramePayload.toNat) {missing : Bytes}
    (h : sock.stream ++ missing = buildMessage type text) (hmissing : missing ≠ []) :
    (readFrame sock).1.ok = false ∧ (readFrame sock).1.err.code = .socketReadFailed := by
  have hpos := List.length_pos_iff.mpr hmissing
  by_cases hheader : sock.stream.length < 5
  · obtain ⟨buf, after, hshort⟩ := readExact_short hheader
    unfold readFrame
    rw [hshort]
    exact ⟨rfl, rfl⟩
  · -- The header is complete, so that the payload is not.
    have hframe : sock.stream ++ missing =
        (type :: writeBe32 (4 + UInt32.ofNat text.length + 1)) ++ (text ++ [0]) := h
    obtain ⟨body, hstream, hbody⟩ := append_split hframe (Nat.not_lt.mp hheader)
    have hfits : (text ++ [0]).length ≤ kMaxPgFramePayload.toNat := by
      rw [List.length_append]
      exact hmax
    obtain ⟨sock', hrest, hnext⟩ := readFrame_header hstream (toNat_frameLength hmax) hfits
    have hless : sock'.stream.length < (text ++ [0]).length := by
      rw [hrest, hbody, List.length_append]
      omega
    obtain ⟨buf, after, hshort⟩ := readExact_short hless
    rw [hnext, hshort]
    exact ⟨rfl, rfl⟩

end

/-! ## Frames survive the wire -/

/-- What `build` makes of the text is read back as a frame of this type with the text and a
NUL, and no byte more is taken; of a stream that ends inside it no frame is made. -/
structure Survives (build : Bytes → Bytes) (type : UInt8) (text : Bytes) : Prop where
  read : ∀ (sock : Socket) (rest : Bytes), sock.stream = build text ++ rest →
    (readFrame sock).1.ok = true ∧ (readFrame sock).1.value = ⟨type, text ++ [0]⟩ ∧
      (readFrame sock).2.stream = rest
  short : ∀ (sock : Socket) (missing : Bytes), sock.stream ++ missing = build text →
    missing ≠ [] →
    (readFrame sock).1.ok = false ∧ (readFrame sock).1.err.code = .socketReadFailed

/-- **Frames survive the wire.**  Whatever the sizes of the reads, a query or a password
within the limit comes back as it was sent, and a stream that ends early is reported. -/
theorem frames_survive (text : Bytes) (h : text.length + 1 ≤ kMaxPgFramePayload.toNat) :
    Survives buildSimpleQuery 'Q'.toUInt8 text ∧ Survives buildPasswordMessage 'p'.toUInt8 text :=
  ⟨⟨fun _ _ => readFrame_built h, fun _ _ => readFrame_short h⟩,
    ⟨fun _ _ => readFrame_built h, fun _ _ => readFrame_short h⟩⟩

/-- The query `SELECT 1`. -/
theorem frames_survive_select :
    let text : Bytes := "SELECT 1".toList.map Char.toUInt8
    text.length + 1 ≤ kMaxPgFramePayload.toNat ∧
      Survives buildSimpleQuery 'Q'.toUInt8 text ∧ Survives buildPasswordMessage 'p'.toUInt8 text :=
  ⟨by decide, frames_survive _ (by decide)⟩

end Upq.Wire
