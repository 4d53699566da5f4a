import Vsnfs.BaseText

/-! The protocol definitions that both sides share: limits, the status enumeration, the file handle,
and the server's table from host errors to statuses. Statuses travel as pre-swapped words, so a
status constant of the server is the swapped code; the host is little-endian and its `long` has 64
bits. -/

namespace Vsnfs

open Base

abbrev vsnfsMaxnamlen : Nat := 255

abbrev vsnfsMaxpathlen : Nat := 1024

abbrev vsnfsFhsize : Nat := 8

abbrev pageSize : Nat := 4096

/-- `enum vsnfs_stat`. -/
inductive VsnfsStat where
  | ok | perm | noent | io | nxio | eagain | acces | exist | xdev | nodev | notdir | isdir
  | inval | fbig | nospc | rofs | mlink | opnotsupp | nametoolong | notempty | dquot | stale
  | remote | wflush | badhandle | notSync | badCookie | notsupp | toosmall | serverfault
  | badtype | jukebox | same | denied | expired | locked | grace | fhexpired | shareDenied
  | wrongsec | clidInuse | resource | moved | nofilehandle | minorVersMismatch | staleClientid
  | staleStateid | oldStateid | badStateid | badSeqid | notSame | lockRange | symlink | restorefh
  | leaseMoved | attrnotsupp | noGrace | reclaimBad | reclaimConflict | badXdr | locksHeld
  | openmode | badowner | badchar | badname | badRange | lockNotsupp | opIllegal | deadlock
  | fileOpen | adminRevoked | cbPathDown
  deriving DecidableEq

def VsnfsStat.code : VsnfsStat → Nat
  | .ok => 0 | .perm => 1 | .noent => 2 | .io => 5 | .nxio => 6 | .eagain => 11 | .acces => 13
  | .exist => 17 | .xdev => 18 | .nodev => 19 | .notdir => 20 | .isdir => 21 | .inval => 22
  | .fbig => 27 | .nospc => 28 | .rofs => 30 | .mlink => 31 | .opnotsupp => 45
  | .nametoolong => 63 | .notempty => 66 | .dquot => 69 | .stale => 70 | .remote => 71
  | .wflush => 99 | .badhandle => 10001 | .notSync => 10002 | .badCookie => 10003
  | .notsupp => 10004 | .toosmall => 10005 | .serverfault => 10006 | .badtype => 10007
  | .jukebox => 10008 | .same => 10009 | .denied => 10010 | .expired => 10011 | .locked => 10012
  | .grace => 10013 | .fhexpired => 10014 | .shareDenied => 10015 | .wrongsec => 10016
  | .clidInuse => 10017 | .resource => 10018 | .moved => 10019 | .nofilehandle => 10020
  | .minorVersMismatch => 10021 | .staleClientid => 10022 | .staleStateid => 10023
  | .oldStateid => 10024 | .badStateid => 10025 | .badSeqid => 10026 | .notSame => 10027
  | .lockRange => 10028 | .symlink => 10029 | .restorefh => 10030 | .leaseMoved => 10031
  | .attrnotsupp => 10032 | .noGrace => 10033 | .reclaimBad => 10034 | .reclaimConflict => 10035
  | .badXdr => 10036 | .locksHeld => 10037 | .openmode => 10038 | .badowner => 10039
  | .badchar => 10040 | .badname => 10041 | .badRange => 10042 | .lockNotsupp => 10043
  | .opIllegal => 10044 | .deadlock => 10045 | .fileOpen => 10046 | .adminRevoked => 10047
  | .cbPathDown => 10048

/-- The pre-swapped constants `vsnfs_ok`, `vsnfserr_perm`, and so on. -/
def vsnfserr (stat : VsnfsStat) : Word := htonl (BitVec.ofNat 32 stat.code)

/-- A host-order word that is a value of the enumeration. -/
def IsStat (word : Word) : Prop := ∃ stat : VsnfsStat, word = BitVec.ofNat 32 stat.code

theorem VsnfsStat.code_lt (stat : VsnfsStat) : stat.code < 10049 := by
  cases stat <;> decide

theorem VsnfsStat.code_mod_lt (stat : VsnfsStat) : stat.code % 256 < 128 := by
  cases stat <;> decide

theorem isStat_vsnfserr (stat : VsnfsStat) : IsStat (ntohl (vsnfserr stat)) :=
  ⟨stat, htonl_htonl _⟩

@[simp] theorem vsnfserr_ok : vsnfserr .ok = 0 := by decide

theorem vsnfserr_eq_zero_iff (stat : VsnfsStat) : vsnfserr stat = 0 ↔ stat = .ok := by
  constructor
  · intro h
    have hcode := congrArg BitVec.toNat ((htonl_eq_zero_iff _).mp h)
    cases stat with
    | ok => rfl
    | _ => simp [VsnfsStat.code] at hcode
  · rintro rfl
    exact vsnfserr_ok

/-- Every code has a low byte below 128, so the swap of a word that is negative as a 32-bit number is
never a status. -/
theorem not_isStat_of_negative {word : Word} (h : 2 ^ 31 ≤ word.toNat) : ¬ IsStat (ntohl word) := by
  rintro ⟨stat, hstat⟩
  have hlow : (ntohl word).toNat % 256 = _ := htonl_toNat_mod word
  have hcode := stat.code_lt
  have hmod := stat.code_mod_lt
  rw [hstat, BitVec.toNat_ofNat, Nat.mod_eq_of_lt (by omega)] at hlow
  omega

/-- The negation of a pre-swapped constant, as some exits return it, is not a status. -/
theorem not_isStat_neg_vsnfserr_nospc : ¬ IsStat (ntohl (-vsnfserr .nospc)) :=
  not_isStat_of_negative (by decide)

theorem not_isStat_neg_vsnfserr_notdir : ¬ IsStat (ntohl (-vsnfserr .notdir)) :=
  not_isStat_of_negative (by decide)

/-! ### Host errors -/

/-- A negative error number of the host, as an `int` holds it. -/
structure Failure where
  errno : Int
  hlow : -2 ^ 31 ≤ errno
  hneg : errno < 0
  deriving DecidableEq

/-- A host error stored in an unsigned word stays what it was: the word of a negative number. -/
theorem Failure.word_negative (failure : Failure) :
    2 ^ 31 ≤ (BitVec.ofInt 32 failure.errno).toNat := by
  have hlow := failure.hlow
  have hneg := failure.hneg
  rw [BitVec.toNat_ofInt]
  omega

abbrev enoent : Int := 2
abbrev einval : Int := 22
abbrev enomem : Int := 12
abbrev ebadcookie : Int := 523

/-- The failure of a lookup that finds nothing. -/
def Failure.noEntry : Failure := ⟨-enoent, by decide, by decide⟩

/-- The rows of `vsnfs_errtbl` in the server, in source order. -/
def vsnfserrnoTable : List (VsnfsStat × Int) :=
  [(.ok, 0), (.perm, -1), (.noent, -enoent), (.io, -5), (.nxio, -6), (.acces, -13), (.exist, -17),
    (.xdev, -18), (.mlink, -31), (.nodev, -19), (.notdir, -20), (.isdir, -21), (.inval, -einval),
    (.fbig, -27), (.nospc, -28), (.rofs, -30), (.mlink, -31), (.nametoolong, -36), (.notempty, -39),
    (.stale, -116), (.jukebox, -110), (.jukebox, -512), (.io, -26), (.notsupp, -95),
    (.toosmall, -525)]

/-- `vsnfserrno`: the first row with this host error, `vsnfserr_io` without one. -/
def vsnfserrno (errno : Int) : Word :=
  match vsnfserrnoTable.find? (fun row => row.2 = errno) with
  | some row => vsnfserr row.1
  | none => vsnfserr .io

theorem isStat_vsnfserrno (errno : Int) : IsStat (ntohl (vsnfserrno errno)) := by
  unfold vsnfserrno
  split <;> exact isStat_vsnfserr _

/-- Only the zero row gives `vsnfs_ok`. -/
theorem vsnfserrno_ne_zero {errno : Int} (h : errno ≠ 0) : vsnfserrno errno ≠ 0 := by
  unfold vsnfserrno
  split
  · rename_i row hrow
    have hmem := List.mem_of_find?_eq_some hrow
    have hsys : row.2 = errno := by simpa using List.find?_some hrow
    have hrows : ∀ row ∈ vsnfserrnoTable, row.1 = .ok → row.2 = 0 := by decide
    intro hzero
    exact h (hsys.symm.trans (hrows row hmem ((vsnfserr_eq_zero_iff row.1).mp hzero)))
  · decide

/-! ### File handles -/

/-- What the host's `i_mode` says a file is. -/
inductive FileKind where
  | reg | dir | other
  deriving DecidableEq

abbrev vsnfsReg : Word := 1
abbrev vsnfsDir : Word := 2

/-- `struct vsnfs_fh`. -/
structure VsnfsFh where
  data : List Byte
  hdata : data.length = vsnfsFhsize
  type : Word
  deriving DecidableEq

/-- A zeroed handle, as the result record is before a handler runs. -/
def zeroFh : VsnfsFh := ⟨List.replicate vsnfsFhsize 0, rfl, 0⟩

namespace VsnfsFh

/-- `snprintf(data, VSNFS_FHSIZE, "%ld", ino)`, as every producer of a handle writes it. -/
def print (fh : VsnfsFh) (ino : BitVec 64) : VsnfsFh where
  data := snprintfInto fh.data vsnfsFhsize (decimalText ino.toInt)
  hdata := by
    rw [snprintfInto, overwrite_length]
    · exact fh.hdata
    · have htake := List.length_take_le (vsnfsFhsize - 1) (decimalText ino.toInt)
      rw [fh.hdata, List.length_append, List.length_singleton]
      simp only [vsnfsFhsize] at htake ⊢
      omega
  type := fh.type

/-- `simple_strtoul(fh->data, .., 0)`, as every consumer reads a handle. The parser has no length: the
type field and `after`, whatever lies behind the structure, follow the data in memory. -/
def ino (fh : VsnfsFh) (after : List Byte) : BitVec 64 :=
  simpleStrtoul (fh.data ++ leBytes fh.type ++ after)

theorem print_data (fh : VsnfsFh) (ino : BitVec 64) :
    ∃ rest, (fh.print ino).data = (decimalText ino.toInt).take 7 ++ 0 :: rest := by
  refine ⟨fh.data.drop ((decimalText ino.toInt).take 7 ++ [0]).length, ?_⟩
  change snprintfInto fh.data vsnfsFhsize (decimalText ino.toInt) = _
  rw [snprintfInto, overwrite_zero, List.append_assoc]
  rfl

/-- **The handle text is lossless exactly below ten million.** A longer number is cut to its first
seven digits, and one with its top bit set prints as a negative number, which reads back as 0. -/
theorem ino_print_eq_iff (fh : VsnfsFh) (ino : BitVec 64) (after : List Byte) :
    (fh.print ino).ino after = ino ↔ ino.toNat < 10 ^ 7 := by
  obtain ⟨rest, hrest⟩ := fh.print_data ino
  rw [VsnfsFh.ino, hrest]
  simp only [List.append_assoc, List.cons_append]
  exact simpleStrtoul_cut_decimal (by decide) (by decide) ino _

end VsnfsFh

end Vsnfs
