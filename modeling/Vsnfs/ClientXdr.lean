import Vsnfs.Protocol

/-! The client's codec. The bytes a decoder has not read yet are the pointer `p`; a decoder that needs
more than is left has read outside its input, and then there is no result. -/

namespace Vsnfs

open Base

/-! ### Handles -/

def xdrEncodeFhandle (fh : VsnfsFh) : List Byte := fh.data ++ leBytes (htonl fh.type)

def xdrDecodeFhandle (p : List Byte) : Option (VsnfsFh × List Byte) :=
  match h : takeBytes vsnfsFhsize p with
  | none => none
  | some (data, p) =>
      match take32 p with
      | none => none
      | some (type, p) => some (⟨data, (takeBytes_eq_some h).2, ntohl type⟩, p)

/-- A handle is read exactly where one was written. -/
theorem xdrDecodeFhandle_eq_some_iff (p : List Byte) (fh : VsnfsFh) (rest : List Byte) :
    xdrDecodeFhandle p = some (fh, rest) ↔ p = xdrEncodeFhandle fh ++ rest := by
  unfold xdrDecodeFhandle
  constructor
  · intro h
    split at h
    · cases h
    · rename_i data q hdata
      split at h
      · cases h
      · rename_i type tail htype
        simp only [Option.some.injEq, Prod.mk.injEq] at h
        obtain ⟨rfl, rfl⟩ := h
        refine (takeBytes_eq_some hdata).1.trans ?_
        rw [xdrEncodeFhandle, htonl_htonl, List.append_assoc]
        exact congrArg (data ++ ·) ((take32_eq_some_iff q type tail).mp htype)
  · rintro rfl
    have htake : takeBytes vsnfsFhsize (xdrEncodeFhandle fh ++ rest) =
        some (fh.data, leBytes (htonl fh.type) ++ rest) := by
      rw [xdrEncodeFhandle, List.append_assoc, ← fh.hdata, takeBytes_append]
    split
    · rename_i hnone
      cases hnone.symm.trans htake
    · rename_i data q hdata
      obtain ⟨rfl, rfl⟩ : data = fh.data ∧ q = leBytes (htonl fh.type) ++ rest := by
        simpa using hdata.symm.trans htake
      rw [take32_leBytes]
      simp only [htonl_htonl]

theorem xdrDecodeFhandle_append (fh : VsnfsFh) (rest : List Byte) :
    xdrDecodeFhandle (xdrEncodeFhandle fh ++ rest) = some (fh, rest) :=
  (xdrDecodeFhandle_eq_some_iff _ fh rest).mpr rfl

@[simp] theorem xdrEncodeFhandle_length (fh : VsnfsFh) :
    (xdrEncodeFhandle fh).length = vsnfsFhsize + 4 := by
  rw [xdrEncodeFhandle, List.length_append, fh.hdata, leBytes_length]

/-! ### Requests -/

abbrev vsnfsReaddirresSz : Nat := 1

/-- How `xdr_inline_pages` splits the receive buffer: the bytes in front of the pages, and those the
pages take. -/
structure RcvBuf where
  headLen : Nat
  pageLen : Nat
  deriving DecidableEq

/-- A reply as it arrives: the bytes in front of the pages, and the page with what it held behind the
last received byte. -/
def RcvBuf.receive (rcv : RcvBuf) (reply page : List Byte) : List Byte × List Byte :=
  (reply.take rcv.headLen, overwrite page 0 ((reply.drop rcv.headLen).take rcv.pageLen))

def vsnfsXdrNullargs (dummy : Word) : List Byte := leBytes (htonl dummy)

def vsnfsXdrGetrootargs (path : List Byte) : List Byte := xdrEncodeArray path

def vsnfsXdrLookupargs (fh : VsnfsFh) (filename : List Byte) : List Byte :=
  xdrEncodeFhandle fh ++ xdrEncodeArray filename

/-- `rephdr` is `RPC_REPHDRSIZE + auth->au_rslack`, in words. -/
def vsnfsXdrReaddirargs (rephdr : Nat) (fh : VsnfsFh) (count : Word) : List Byte × RcvBuf :=
  (xdrEncodeFhandle fh ++ leBytes (htonl count), ⟨4 * (rephdr + vsnfsReaddirresSz), count.toNat⟩)

/-- The reply of READ is split with the size of the READDIR result. -/
def vsnfsXdrReadargs (rephdr : Nat) (fh : VsnfsFh) (offset length : Word) : List Byte × RcvBuf :=
  (xdrEncodeFhandle fh ++ leBytes (htonl offset) ++ leBytes (htonl length),
    ⟨4 * (rephdr + vsnfsReaddirresSz), length.toNat⟩)

/-! ### Statuses -/

/-- The rows of `vsnfs_errtbl` in the client up to the end mark. Two rows have a minus sign where the
others have a comma: their status is a difference and their error number is 0. -/
def vsnfsErrtbl : List (Int × Int) :=
  [(VsnfsStat.ok.code, 0), (VsnfsStat.noent.code, -enoent), (VsnfsStat.io.code, -5),
    (VsnfsStat.nxio.code, -6), (VsnfsStat.eagain.code, -11), (VsnfsStat.exist.code, -17),
    (VsnfsStat.nodev.code, -19), (VsnfsStat.notdir.code, -20), (VsnfsStat.isdir.code, -21),
    (VsnfsStat.inval.code, -einval), (VsnfsStat.fbig.code, -27), (VsnfsStat.nospc.code, -28),
    (VsnfsStat.rofs.code, -30), (VsnfsStat.mlink.code, -31), (VsnfsStat.opnotsupp.code - 95, 0),
    (VsnfsStat.nametoolong.code, -36), (VsnfsStat.notempty.code, -39), (VsnfsStat.dquot.code, -122),
    (VsnfsStat.stale.code, -116), (VsnfsStat.remote.code, -66), (VsnfsStat.badhandle.code, -521),
    (VsnfsStat.badCookie.code - ebadcookie, 0)]

def vsnfsStatToErrno (stat : Int) : Int :=
  match vsnfsErrtbl.find? (fun row => row.1 = stat) with
  | some row => row.2
  | none => -5

/-! ### Replies -/

/-- The status every result decoder reads first. -/
def replyStatus (p : List Byte) : Option (Int × List Byte) :=
  match take32 p with
  | none => none
  | some (word, p) => some ((ntohl word).toInt, p)

def vsnfsXdrNullres (p : List Byte) (dummy : Word) : Option (Int × Word) :=
  match replyStatus p with
  | none => none
  | some (status, p) =>
      if status ≠ 0 then some (vsnfsStatToErrno status, dummy)
      else
        match take32 p with
        | none => none
        | some (word, _) => some (0, ntohl word)

def vsnfsXdrFh (p : List Byte) (fh : VsnfsFh) : Option (Int × VsnfsFh) :=
  match replyStatus p with
  | none => none
  | some (status, p) =>
      if status ≠ 0 then some (vsnfsStatToErrno status, fh)
      else
        match xdrDecodeFhandle p with
        | none => none
        | some (fh, _) => some (0, fh)

def vsnfsXdrReaddirres (p : List Byte) : Option Int :=
  match replyStatus p with
  | none => none
  | some (status, _) => some (if status ≠ 0 then vsnfsStatToErrno status else 0)

/-- The count is stored into the reply, not taken from it: the result record keeps what it held. The
reply is returned as it is left. -/
def vsnfsXdrReadres (p : List Byte) (count : BitVec 64) : Option (Int × List Byte × BitVec 64) :=
  match replyStatus p with
  | none => none
  | some (status, _) =>
      if status ≠ 0 then some (vsnfsStatToErrno status, p, count)
      else some (0, overwrite p 4 (leBytes (htonl (count.setWidth 32))), count)

/-- `vsnfs_proc_read` on the reply head; `stack` is what the local result record held. The count is
handed on as an `int`. -/
def vsnfsProcRead (p : List Byte) (stack : BitVec 64) : Option (Int × Int) :=
  match vsnfsXdrReadres p stack with
  | none => none
  | some (status, _, count) => some (status, (count.setWidth 32).toInt)

/-! ### Directory entries -/

/-- `struct vsnfs_entry`; `name` is the memory at the name pointer. -/
structure VsnfsEntry where
  ino : BitVec 64
  offset : BitVec 64
  name : List Byte
  len : Word
  eof : Int
  fh : VsnfsFh

/-- `!p[0] && p[1]`; the second word is looked at only when the first is zero. -/
def endOfList (p : List Byte) : Option Int :=
  match take32 p with
  | none => none
  | some (word, p) =>
      if word ≠ 0 then some 0
      else
        match take32 p with
        | none => none
        | some (word, _) => some (if word ≠ 0 then 1 else 0)

/-- The result is the pointer behind the entry, or the error number of an `ERR_PTR`. -/
def vsnfsDecodeDirent (p : List Byte) (entry : VsnfsEntry) :
    Option (Except Int (List Byte) × VsnfsEntry) := do
  let (mark, p) ← take32 p
  if mark = 0 then return (.error (-ebadcookie), { entry with eof := 1 })
  let (ino, p) ← take32 p
  let (len, p) ← take32 p
  let name := p
  let (_, p) ← takeBytes (4 * (xdrQuadlen (ntohl len)).toNat) p
  let (fh, p) ← xdrDecodeFhandle p
  let (offset, p) ← take32 p
  let eof ← endOfList p
  return (.ok p,
    { ino := (ntohl ino).setWidth 64, offset := (ntohl offset).setWidth 64, name := name,
      len := ntohl len, eof := eof, fh := fh })

end Vsnfs
