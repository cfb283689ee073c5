/-
  Foundation/Descriptors.lean --- the file descriptors of one process.

  A descriptor is a number.  The kernel hands a number out again as soon as it is closed,
  so a number kept too long names somebody else's socket.  The table below keeps, beside
  the inode number a program can ask for, what no program sees: the socket itself and who
  opened the descriptor.  Two facts are fields of the table: a socket has been made before
  a descriptor names it, and sockets that are open at the same time differ in their inode
  numbers.

  `Holds f o fds` says that the descriptors of owner `o` are those listed and no other.  Its
  rules are how a program argues that it closes its own descriptors only.
-/
import Mathlib.Data.List.AList
import Upq.Foundation.Machine

set_option autoImplicit false

namespace Upq.Foundation

variable {ω : Type}

/-- An open descriptor: the socket it names, the inode number of that socket, and who opened
the descriptor. -/
structure Entry (ω : Type) where
  sock : Nat
  ino : Nat
  owner : ω
  deriving DecidableEq, Repr

/-- The open descriptors of a process, and the number of sockets made so far. -/
structure Files (ω : Type) where
  table : AList fun _ : Nat => Entry ω
  made : Nat
  sock_lt : ∀ fd e, table.lookup fd = some e → e.sock < made
  sock_of_ino : ∀ fd fd' e e', table.lookup fd = some e → table.lookup fd' = some e' →
    e.ino = e'.ino → e.sock = e'.sock

namespace Files

def empty : Files ω :=
  { table := ∅, made := 0
    sock_lt := fun fd e h => by rw [AList.lookup_empty] at h; cases h
    sock_of_ino := fun fd fd' e e' h => by rw [AList.lookup_empty] at h; cases h }

/-- What a number names. -/
def entryAt (f : Files ω) (fd : Nat) : Option (Entry ω) := f.table.lookup fd

def ownerAt (f : Files ω) (fd : Nat) : Option ω := (f.entryAt fd).map Entry.owner

/-- `st_ino` of fstat(2) -/
def inoAt (f : Files ω) (fd : Nat) : Option Nat := (f.entryAt fd).map Entry.ino

/-- The socket itself. -/
def sockAt (f : Files ω) (fd : Nat) : Option Nat := (f.entryAt fd).map Entry.sock

/-- No open socket has this inode number. -/
def Unused (f : Files ω) (ino : Nat) : Prop := ∀ p ∈ f.table.entries, p.2.ino ≠ ino

instance (f : Files ω) (ino : Nat) : Decidable (f.Unused ino) :=
  inferInstanceAs (Decidable (∀ p ∈ f.table.entries, p.2.ino ≠ ino))

theorem Unused.ino_ne {f : Files ω} {ino fd : Nat} {e : Entry ω} (h : f.Unused ino)
    (he : f.table.lookup fd = some e) : e.ino ≠ ino :=
  h ⟨fd, e⟩ (AList.mem_lookup_iff.mp he)

/-- The table with one more descriptor. -/
theorem lookup_insert_eq (t : AList fun _ : Nat => Entry ω) (fd fd' : Nat) (e : Entry ω) :
    (t.insert fd e).lookup fd' = if fd' = fd then some e else t.lookup fd' := by
  split
  · rename_i heq
    rw [heq, AList.lookup_insert]
  · rename_i hne
    rw [AList.lookup_insert_ne hne]

theorem lookup_erase_eq (t : AList fun _ : Nat => Entry ω) (fd fd' : Nat) :
    (t.erase fd).lookup fd' = if fd' = fd then none else t.lookup fd' := by
  split
  · rename_i heq
    rw [heq, AList.lookup_erase]
  · rename_i hne
    rw [AList.lookup_erase_ne hne]

/-- `socket(2)` answered with the number `fd` for a socket with inode number `ino`: any number
that is not open, any inode number that is not in use. -/
def socket (f : Files ω) (fd ino : Nat) (owner : ω) : Option (Files ω) :=
  if h : fd ∉ f.table ∧ f.Unused ino then
    some
      { table := f.table.insert fd ⟨f.made, ino, owner⟩
        made := f.made + 1
        sock_lt := by
          intro x e he
          rw [lookup_insert_eq] at he
          split at he
          · cases he
            exact Nat.lt_succ_self _
          · exact Nat.lt_succ_of_lt (f.sock_lt x e he)
        sock_of_ino := by
          intro x y e e' he he' hino
          rw [lookup_insert_eq] at he he'
          split at he <;> split at he'
          · cases he
            cases he'
            rfl
          · cases he
            exact absurd hino.symm (h.2.ino_ne he')
          · cases he'
            exact absurd hino (h.2.ino_ne he)
          · exact f.sock_of_ino x y e e' he he' hino }
  else none

/-- `dup(2)` of `fd` answered with the number `fd'`. -/
def dup (f : Files ω) (fd fd' : Nat) (owner : ω) : Option (Files ω) :=
  match h : f.table.lookup fd with
  | none => none
  | some e =>
      if fd' ∈ f.table then none
      else
        some
          { table := f.table.insert fd' { e with owner }
            made := f.made
            sock_lt := by
              intro x e' he
              rw [lookup_insert_eq] at he
              split at he
              · cases he
                exact f.sock_lt fd e h
              · exact f.sock_lt x e' he
            sock_of_ino := by
              intro x y d d' hd hd' hino
              rw [lookup_insert_eq] at hd hd'
              split at hd <;> split at hd'
              · cases hd
                cases hd'
                rfl
              · cases hd
                exact f.sock_of_ino fd y e d' h hd' hino
              · cases hd'
                exact f.sock_of_ino x fd d e hd h hino
              · exact f.sock_of_ino x y d d' hd hd' hino }

/-- `close(2)` -/
def close (f : Files ω) (fd : Nat) : Files ω :=
  { table := f.table.erase fd
    made := f.made
    sock_lt := by
      intro x e he
      rw [lookup_erase_eq] at he
      split at he
      · cases he
      · exact f.sock_lt x e he
    sock_of_ino := by
      intro x y e e' he he' hino
      rw [lookup_erase_eq] at he he'
      split at he <;> split at he'
      · cases he
      · cases he
      · cases he'
      · exact f.sock_of_ino x y e e' he he' hino }

/-! ## What a number names afterwards -/

theorem entryAt_socket {f f' : Files ω} {fd ino : Nat} {owner : ω}
    (h : f.socket fd ino owner = some f') :
    f.entryAt fd = none ∧
      ∀ x, f'.entryAt x = if x = fd then some ⟨f.made, ino, owner⟩ else f.entryAt x := by
  unfold socket at h
  split at h
  · rename_i hfree
    cases h
    exact ⟨AList.lookup_eq_none.mpr hfree.1, fun x => lookup_insert_eq _ _ _ _⟩
  · cases h

theorem entryAt_dup {f f' : Files ω} {fd fd' : Nat} {owner : ω} (h : f.dup fd fd' owner = some f') :
    f.entryAt fd' = none ∧
      ∃ e, f.entryAt fd = some e ∧
        ∀ x, f'.entryAt x = if x = fd' then some { e with owner } else f.entryAt x := by
  unfold dup at h
  split at h
  · cases h
  · rename_i e he
    split at h
    · cases h
    · rename_i hfree
      cases h
      exact ⟨AList.lookup_eq_none.mpr hfree, e, he, fun x => lookup_insert_eq _ _ _ _⟩

theorem entryAt_close (f : Files ω) (fd x : Nat) :
    (f.close fd).entryAt x = if x = fd then none else f.entryAt x :=
  lookup_erase_eq _ _ _

/-- A new socket is one more than there were. -/
theorem made_socket {f f' : Files ω} {fd ino : Nat} {owner : ω}
    (h : f.socket fd ino owner = some f') : f.made ≤ f'.made ∧ f'.sockAt fd = some f.made := by
  refine ⟨?_, by rw [sockAt, (entryAt_socket h).2, if_pos rfl]; rfl⟩
  unfold socket at h
  split at h
  · cases h
    exact Nat.le_succ _
  · cases h

theorem made_dup {f f' : Files ω} {fd fd' : Nat} {owner : ω} (h : f.dup fd fd' owner = some f') :
    f'.made = f.made := by
  unfold dup at h
  split at h
  · cases h
  · split at h
    · cases h
    · cases h
      rfl

/-- Every descriptor that is open stays what it is. -/
def Grows (f f' : Files ω) : Prop := ∀ fd e, f.entryAt fd = some e → f'.entryAt fd = some e

theorem grows_socket {f f' : Files ω} {fd ino : Nat} {owner : ω}
    (h : f.socket fd ino owner = some f') : f.Grows f' := by
  obtain ⟨hfree, hat⟩ := entryAt_socket h
  intro x e hx
  have hne : x ≠ fd := by
    rintro rfl
    rw [hfree] at hx
    cases hx
  rw [hat, if_neg hne, hx]

theorem grows_dup {f f' : Files ω} {fd fd' : Nat} {owner : ω} (h : f.dup fd fd' owner = some f') :
    f.Grows f' := by
  obtain ⟨hfree, d, _, hat⟩ := entryAt_dup h
  intro x e hx
  have hne : x ≠ fd' := by
    rintro rfl
    rw [hfree] at hx
    cases hx
  rw [hat, if_neg hne, hx]

theorem Grows.inoAt {f f' : Files ω} (h : f.Grows f') {fd ino : Nat}
    (hino : f.inoAt fd = some ino) :
    f'.inoAt fd = some ino := by
  obtain ⟨e, he, rfl⟩ := Option.map_eq_some_iff.mp hino
  exact Option.map_eq_some_iff.mpr ⟨e, h fd e he, rfl⟩

theorem Grows.sockAt {f f' : Files ω} (h : f.Grows f') {fd sock : Nat}
    (hsock : f.sockAt fd = some sock) : f'.sockAt fd = some sock := by
  obtain ⟨e, he, rfl⟩ := Option.map_eq_some_iff.mp hsock
  exact Option.map_eq_some_iff.mpr ⟨e, h fd e he, rfl⟩

theorem entryAt_close_of_ne {f : Files ω} {fd x : Nat} (h : x ≠ fd) :
    (f.close fd).entryAt x = f.entryAt x := by
  rw [entryAt_close, if_neg h]

theorem inoAt_close_of_ne {f : Files ω} {fd x : Nat} (h : x ≠ fd) :
    (f.close fd).inoAt x = f.inoAt x := by
  rw [inoAt, entryAt_close_of_ne h]
  rfl

/-- Open descriptors of sockets with one inode number name one socket. -/
theorem sockAt_eq_of_inoAt {f : Files ω} {fd fd' ino : Nat} (h : f.inoAt fd = some ino)
    (h' : f.inoAt fd' = some ino) : f.sockAt fd = f.sockAt fd' := by
  obtain ⟨e, he, hino⟩ := Option.map_eq_some_iff.mp h
  obtain ⟨e', he', hino'⟩ := Option.map_eq_some_iff.mp h'
  rw [sockAt, sockAt, he, he']
  exact congrArg some (f.sock_of_ino fd fd' e e' he he' (hino.trans hino'.symm))

/-! ## The descriptors of one owner -/

/-- The descriptors of `owner` are `own`, each once, and no other. -/
structure Holds (f : Files ω) (owner : ω) (own : List Nat) : Prop where
  nodup : own.Nodup
  owned : ∀ fd, f.ownerAt fd = some owner ↔ fd ∈ own

section

variable {f f' : Files ω} {owner owner' : ω} {own : List Nat} {fd fd' ino : Nat}

theorem holds_empty : (empty : Files ω).Holds owner [] where
  nodup := List.nodup_nil
  owned fd := by simp [ownerAt, entryAt, empty]

/-- A descriptor of somebody else is another number. -/
theorem Holds.not_mem (h : f.Holds owner own) (howner : f.ownerAt fd = some owner')
    (hne : owner' ≠ owner) : fd ∉ own := by
  intro hmem
  have hown := (h.owned fd).mpr hmem
  rw [howner] at hown
  exact hne (Option.some.inj hown)

/-- A number that was free is given to the owner or to somebody else. -/
private theorem Holds.add {e : Entry ω} (h : f.Holds owner own) (hfree : f.entryAt fd = none)
    (hat : ∀ x, f'.entryAt x = if x = fd then some e else f.entryAt x) :
    (e.owner ≠ owner → f'.Holds owner own) ∧ (e.owner = owner → f'.Holds owner (fd :: own)) := by
  have hnot : fd ∉ own := by
    intro hmem
    have hown := (h.owned fd).mpr hmem
    rw [ownerAt, hfree] at hown
    cases hown
  refine ⟨fun hne => ⟨h.nodup, fun x => ?_⟩,
    fun heq => ⟨List.nodup_cons.mpr ⟨hnot, h.nodup⟩, fun x => ?_⟩⟩
  · rw [ownerAt, hat]
    split
    · rename_i hx
      subst hx
      exact iff_of_false (fun ho => hne (Option.some.inj ho)) hnot
    · exact h.owned x
  · rw [ownerAt, hat, List.mem_cons]
    split
    · rename_i hx
      exact iff_of_true (congrArg some heq) (.inl hx)
    · rename_i hx
      exact (h.owned x).trans (or_iff_right hx).symm

theorem Holds.socket_ne (h : f.Holds owner own) (hsocket : f.socket fd ino owner' = some f')
    (hne : owner' ≠ owner) : f'.Holds owner own :=
  (h.add (entryAt_socket hsocket).1 (entryAt_socket hsocket).2).1 hne

theorem Holds.socket_self (h : f.Holds owner own) (hsocket : f.socket fd ino owner = some f') :
    f'.Holds owner (fd :: own) :=
  (h.add (entryAt_socket hsocket).1 (entryAt_socket hsocket).2).2 rfl

theorem Holds.dup_ne (h : f.Holds owner own) (hdup : f.dup fd fd' owner' = some f')
    (hne : owner' ≠ owner) : f'.Holds owner own := by
  obtain ⟨hfree, e, -, hat⟩ := entryAt_dup hdup
  exact (h.add hfree hat).1 hne

theorem Holds.dup_self (h : f.Holds owner own) (hdup : f.dup fd fd' owner = some f') :
    f'.Holds owner (fd' :: own) := by
  obtain ⟨hfree, e, -, hat⟩ := entryAt_dup hdup
  exact (h.add hfree hat).2 rfl

theorem Holds.close_ne (h : f.Holds owner own) (hne : fd ∉ own) :
    (f.close fd).Holds owner own := by
  refine ⟨h.nodup, fun x => ?_⟩
  rw [ownerAt, entryAt_close]
  split
  · rename_i heq
    subst heq
    exact iff_of_false (fun hn => by cases hn) hne
  · exact h.owned x

/-- The owner closes one of its descriptors, wherever it stands in the list. -/
theorem Holds.close_self (h : f.Holds owner own) (fd : Nat) :
    (f.close fd).Holds owner (own.erase fd) := by
  refine ⟨h.nodup.erase fd, fun x => ?_⟩
  rw [ownerAt, entryAt_close, h.nodup.mem_erase_iff]
  split
  · rename_i heq
    exact iff_of_false (fun hn => by cases hn) fun hx => hx.1 heq
  · rename_i hx
    exact (h.owned x).trans (and_iff_right hx).symm

end

end Files

end Upq.Foundation
