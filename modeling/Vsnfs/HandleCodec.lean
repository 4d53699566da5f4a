import Vsnfs.ClientXdr
import Vsnfs.ServerRun

/-! The handle from its producers to its consumers. GETROOT, LOOKUP and the directory entries print an
inode number into the eight bytes of a handle; the bytes travel to the client and back unchanged, and
each consumer parses them. What the field is too small for is lost on the first step. -/

namespace Vsnfs

open Base

/-! ### Producers -/

/-- A handle that the server made for an inode number: the result of a GETROOT or LOOKUP that returned
`vsnfs_ok`, or the handle of an accepted directory entry. -/
inductive Issued : BitVec 64 → VsnfsFh → Prop where
  | getroot (head : Head) (args : GetrootArgs) (resp : VsnfsFh) (env : GetrootEnv) (root : Inode)
      (hroot : rootAnswer args env = .found root)
      (hok : (vsnfsdProcGetroot head args resp env).status = some (vsnfserr .ok)) :
      Issued root.ino (vsnfsdProcGetroot head args resp env).resp
  | lookup (nodes : List Node) (args : LookupArgs) (resp : VsnfsFh) (env : LookupEnv) (node : Node)
      (inode : Inode) (hfound : LookupResolved nodes args env node inode)
      (hok : (vsnfsdProcLookup (some nodes) args resp env).status = some (vsnfserr .ok)) :
      Issued inode.ino (vsnfsdProcLookup (some nodes) args resp env).resp
  | entry (res : ReaddirRes) (name : List Byte) (namlen : Nat) (offset ino : BitVec 64) (dType : Word)
      (stack : VsnfsFh)
      (haccepted : (vsnfssvcEncodeEntry res name namlen offset ino dType stack).2 = 0) :
      Issued ino (entryFh stack ino dType)

/-- The data bytes are the printed number, whatever the type. -/
def Printed (ino : BitVec 64) (fh : VsnfsFh) : Prop := ∃ base : VsnfsFh, fh.data = (base.print ino).data

theorem getrootResp_printed (resp : VsnfsFh) (root : Inode) : Printed root.ino (getrootResp resp root) := by
  refine ⟨resp, ?_⟩
  unfold getrootResp
  split <;> rfl

theorem lookupResp_printed (resp : VsnfsFh) (inode : Inode) :
    Printed inode.ino (lookupResp resp inode) := by
  refine ⟨resp, ?_⟩
  unfold lookupResp
  split <;> rfl

theorem Issued.printed {ino : BitVec 64} {fh : VsnfsFh} (h : Issued ino fh) : Printed ino fh := by
  cases h with
  | getroot head args resp env root hroot hok =>
      obtain ⟨other, hdentry, -, hresp⟩ := getroot_of_ok hok
      rw [hroot] at hdentry
      obtain rfl : root = other := Option.some.inj hdentry
      rw [hresp]
      exact getrootResp_printed resp root
  | lookup nodes args resp env node inode hfound hok =>
      obtain ⟨other, hother, -, hresp, -⟩ := lookup_of_ok hok hfound.hfind
      obtain ⟨-, rfl⟩ := hfound.unique hother
      rw [hresp]
      exact lookupResp_printed resp inode
  | entry res name namlen offset ino dType stack haccepted => exact ⟨stack, rfl⟩

/-! ### The wire -/

/-- What the server sends of a handle: the data and the type. -/
def serverHandleBytes (fh : VsnfsFh) : List Byte := encodeFh fh ++ leBytes (htonl fh.type)

/-- The client finds the handle the server sent. -/
theorem client_reads_server (fh : VsnfsFh) (rest : List Byte) :
    xdrDecodeFhandle (serverHandleBytes fh ++ rest) = some (fh, rest) := xdrDecodeFhandle_append fh rest

theorem bytesAt_append (mem : Nat → Byte) (p front rest : Nat) :
    bytesAt mem p (front + rest) = bytesAt mem p front ++ bytesAt mem (p + front) rest := by
  simp only [bytesAt, List.range_add, List.map_append, List.map_map]
  congr 1
  apply List.map_congr_left
  intro index _
  simp only [Function.comp_apply, Nat.add_assoc]

theorem bytesAt_four (mem : Nat → Byte) (p : Nat) : bytesAt mem p 4 = leBytes (wordAt mem p) := by
  obtain ⟨h0, h1, h2, h3⟩ := byteOf_leWord (mem p) (mem (p + 1)) (mem (p + 2)) (mem (p + 3))
  rw [wordAt, leBytes, h0, h1, h2, h3]
  rfl

/-- The server finds the handle the client sent. -/
theorem server_reads_client (fh : VsnfsFh) (mem : Nat → Byte) (p : Nat)
    (hmem : bytesAt mem p (vsnfsFhsize + 4) = xdrEncodeFhandle fh) : (decodeFh mem p).1 = fh := by
  rw [bytesAt_append, xdrEncodeFhandle, bytesAt_four] at hmem
  obtain ⟨hdata, htype⟩ := List.append_inj hmem (by rw [bytesAt_length, fh.hdata])
  have hword : wordAt mem (p + vsnfsFhsize) = htonl fh.type := leBytes_injective htype
  simp only [decodeFh, hdata, hword, htonl_htonl]

/-! ### Consumers -/

/-- The number that `vsnfs_fhget` hashes a handle to. -/
def vsnfsFhgetHash (fh : VsnfsFh) (after : List Byte) : BitVec 64 := fh.ino after

/-- Every consumer parses the number back: the client from the bytes of the server's reply, and the
server, in both of its searches, from the bytes of a request made with what the client had read. -/
structure RoundTrip (ino : BitVec 64) (fh : VsnfsFh) : Prop where
  client : ∀ rest after : List Byte, ∃ got, xdrDecodeFhandle (serverHandleBytes fh ++ rest) =
    some (got, rest) ∧ vsnfsFhgetHash got after = ino
  server : ∀ (rest : List Byte) (got : VsnfsFh), xdrDecodeFhandle (serverHandleBytes fh ++ rest) =
    some (got, rest) → ∀ (mem : Nat → Byte) (p : Nat),
      bytesAt mem p (vsnfsFhsize + 4) = xdrEncodeFhandle got →
        ∀ after, (decodeFh mem p).1.ino after = ino

theorem roundTrip_iff (ino : BitVec 64) (fh : VsnfsFh) :
    RoundTrip ino fh ↔ ∀ after, fh.ino after = ino := by
  constructor
  · intro h after
    obtain ⟨got, hgot, hhash⟩ := h.client [] after
    rw [client_reads_server] at hgot
    cases hgot
    exact hhash
  · intro h
    refine ⟨fun rest after => ⟨fh, client_reads_server fh rest, h after⟩, ?_⟩
    intro rest got hgot mem p hmem after
    rw [client_reads_server] at hgot
    cases hgot
    rw [server_reads_client fh mem p hmem]
    exact h after

theorem Printed.ino_eq_iff {ino : BitVec 64} {fh : VsnfsFh} (h : Printed ino fh) (after : List Byte) :
    fh.ino after = ino ↔ ino.toNat < 10 ^ 7 := by
  obtain ⟨base, hdata⟩ := h
  have hsame : fh.ino after = (VsnfsFh.print { base with type := fh.type } ino).ino after := by
    rw [VsnfsFh.ino, VsnfsFh.ino, hdata]
    rfl
  rw [hsame]
  exact VsnfsFh.ino_print_eq_iff _ ino after

/-- **Handles are lossless exactly below ten million.** A handle that a producer wrote for `ino` is
parsed back to `ino` by every consumer exactly when `ino` has at most seven digits, and among such
numbers no two share the data of a handle. -/
theorem issued_handle_round_trip_iff (ino : BitVec 64) (fh : VsnfsFh) (hissued : Issued ino fh) :
    (RoundTrip ino fh ↔ ino.toNat < 10 ^ 7) ∧
      (ino.toNat < 10 ^ 7 → ∀ other fh', Issued other fh' → other.toNat < 10 ^ 7 →
        fh'.data = fh.data → other = ino) := by
  refine ⟨?_, ?_⟩
  · rw [roundTrip_iff]
    constructor
    · intro h
      exact (hissued.printed.ino_eq_iff []).mp (h [])
    · intro hsmall after
      exact (hissued.printed.ino_eq_iff after).mpr hsmall
  · intro hsmall other fh' hother hotherSmall hdata
    have hprinted : Printed other fh := by
      obtain ⟨base, hbase⟩ := hother.printed
      exact ⟨base, hdata.symm.trans hbase⟩
    rw [← (hprinted.ino_eq_iff []).mpr hotherSmall, (hissued.printed.ino_eq_iff []).mpr hsmall]

/-- An entry with the number 42 on a fresh page. -/
theorem small_entry_handle_round_trip : RoundTrip 42 (entryFh zeroFh 42 8) :=
  (issued_handle_round_trip_iff 42 _
    (.entry (readdirStart pageSize []) [0x61] 1 0 42 8 zeroFh (by decide))).1.mpr (by decide)

/-- Two entries, with the numbers 10000000 and 1000000: the first does not come back, and both have
the same handle. -/
theorem large_entry_handle_lossy :
    Issued 10000000 (entryFh zeroFh 10000000 8) ∧ Issued 1000000 (entryFh zeroFh 1000000 8) ∧
      ¬ RoundTrip 10000000 (entryFh zeroFh 10000000 8) ∧
      entryFh zeroFh 10000000 8 = entryFh zeroFh 1000000 8 := by
  have hlarge : Issued 10000000 (entryFh zeroFh 10000000 8) :=
    .entry (readdirStart pageSize []) [0x61] 1 0 10000000 8 zeroFh (by decide)
  refine ⟨hlarge, .entry (readdirStart pageSize []) [0x61] 1 0 1000000 8 zeroFh (by decide), ?_, ?_⟩
  · intro htrip
    have hparse := (roundTrip_iff _ _).mp htrip []
    exact absurd ((hlarge.printed.ino_eq_iff []).mp hparse) (by decide)
  · decide

/-! ### What a handle off the wire is read from -/

/-- The indices that the parse of a handle reads, counted from its first data byte. -/
def VsnfsFh.inoReads (fh : VsnfsFh) (after : List Byte) : List Nat :=
  strtoulReads (fh.data ++ leBytes fh.type ++ after)

/-- Two handles, each with the memory behind it, are read as the same number and from their data bytes
alone. -/
structure ReadFromData (fh : VsnfsFh) (after : List Byte) (fh' : VsnfsFh) (after' : List Byte) : Prop where
  number : fh.ino after = fh'.ino after'
  left : ∀ index ∈ fh.inoReads after, index < vsnfsFhsize
  right : ∀ index ∈ fh'.inoReads after', index < vsnfsFhsize

theorem VsnfsFh.inoReads_inside_iff (fh : VsnfsFh) (after : List Byte) :
    (∀ index ∈ fh.inoReads after, index < vsnfsFhsize) ↔ unsignedNumber fh.data = none := by
  rw [VsnfsFh.inoReads, List.append_assoc, ← fh.hdata]
  exact strtoulReads_inside_iff (by rw [fh.hdata]; decide) _

/-- **The meaning of a handle.** Two handles off the wire with the same data bytes, whatever their types
and the memory behind them, are read as the same number from these bytes alone exactly when the eight
bytes are not one number as a whole, that is when some byte of them ends the digits of the guessed
base. -/
theorem handle_read_from_data_iff (mem mem' : Nat → Byte) (p p' : Nat) (after after' : List Byte)
    (hdata : (decodeFh mem p).1.data = (decodeFh mem' p').1.data) :
    ReadFromData (decodeFh mem p).1 after (decodeFh mem' p').1 after' ↔
      unsignedNumber (decodeFh mem p).1.data = none := by
  generalize (decodeFh mem p).1 = fh at hdata ⊢
  generalize (decodeFh mem' p').1 = fh' at hdata ⊢
  constructor
  · intro h
    exact (fh.inoReads_inside_iff after).mp h.left
  · intro hended
    refine ⟨?_, (fh.inoReads_inside_iff after).mpr hended, ?_⟩
    · rw [VsnfsFh.ino, VsnfsFh.ino, List.append_assoc, List.append_assoc, ← hdata]
      exact simpleStrtoul_congr (by rw [fh.hdata]; decide) hended _ _
    · rw [hdata] at hended
      exact (fh'.inoReads_inside_iff after').mpr hended

/-- A handle of eight data bytes and a type on the wire. -/
def handleMem (data : List Byte) (type : Word) : Nat → Byte := memOf (data ++ beBytes type)

/-- The text `5` is read as 5 whatever the type. -/
theorem short_handle_read_from_data :
    ReadFromData (decodeFh (handleMem [0x35, 0, 0, 0, 0, 0, 0, 0] 1) 0).1 []
      (decodeFh (handleMem [0x35, 0, 0, 0, 0, 0, 0, 0] 0x39) 0).1 [0x30] :=
  (handle_read_from_data_iff (handleMem [0x35, 0, 0, 0, 0, 0, 0, 0] 1)
    (handleMem [0x35, 0, 0, 0, 0, 0, 0, 0] 0x39) 0 0 [] [0x30] (by decide)).mpr (by decide)

/-- Eight digits go on into the type: with the type 1 they are read as 12345678 and with the type 0x39 as
123456789. -/
theorem digits_handle_read_from_type :
    (decodeFh (handleMem [0x31, 0x32, 0x33, 0x34, 0x35, 0x36, 0x37, 0x38] 1) 0).1.data =
        (decodeFh (handleMem [0x31, 0x32, 0x33, 0x34, 0x35, 0x36, 0x37, 0x38] 0x39) 0).1.data ∧
      (decodeFh (handleMem [0x31, 0x32, 0x33, 0x34, 0x35, 0x36, 0x37, 0x38] 1) 0).1.ino [] = 12345678 ∧
      (decodeFh (handleMem [0x31, 0x32, 0x33, 0x34, 0x35, 0x36, 0x37, 0x38] 0x39) 0).1.ino [] = 123456789 ∧
      ¬ ReadFromData (decodeFh (handleMem [0x31, 0x32, 0x33, 0x34, 0x35, 0x36, 0x37, 0x38] 1) 0).1 []
        (decodeFh (handleMem [0x31, 0x32, 0x33, 0x34, 0x35, 0x36, 0x37, 0x38] 0x39) 0).1 [] := by
  refine ⟨by decide, by decide, by decide, fun h => ?_⟩
  exact absurd h.number (by decide)

end Vsnfs
