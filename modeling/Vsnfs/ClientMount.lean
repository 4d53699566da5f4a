import Mathlib.Data.List.GetD
import Vsnfs.BaseRun
import Vsnfs.Protocol

/-! The mount source `host:path` and the mount options. The host is copied into a field of sixteen
bytes whatever its length, so the model keeps the memory of the structure from that field on: the
port and the pointer to the path lie behind it. The address parser answers 0 for a text that is no
address, and its caller waits for a negative number: every host is accepted. -/

namespace Vsnfs

open Base

abbrev vsnfsPort : Nat := 6789

abbrev vsnfsTimeout : Nat := 600

/-- The families the address parser tells apart. -/
inductive AddressFamily where
  | inet | inet6 | other
  deriving DecidableEq

/-- `in4_pton` and `in6_pton` with the length and the delimiter the client gives them: the address
stored at `dst`, or no address, and then nothing is stored. -/
structure Pton (Address : Type) where
  in4 : List Byte → Option Address
  in6 : List Byte → Option Address

/-- `struct vsnfs_server` as the parser uses it. `memory` is the memory from `ip_addr` on: sixteen
bytes, `server_port` in the next four, four bytes of padding, the pointer `mnt_path` in the next
eight, and whatever lies behind. `mntPath` is the text that pointer leads to. -/
structure VsnfsServer where
  sinFamily : BitVec 16
  sinPort : BitVec 16
  sinAddr : Word
  clAddrlen : Nat
  timeout : Int
  memory : List Byte
  mntPath : Option (List Byte)

namespace VsnfsServer

abbrev portOffset : Nat := 16

abbrev mntPathOffset : Nat := 24

def serverPort (server : VsnfsServer) : Word :=
  leWord (server.memory.getD portOffset 0) (server.memory.getD (portOffset + 1) 0)
    (server.memory.getD (portOffset + 2) 0) (server.memory.getD (portOffset + 3) 0)

def setServerPort (server : VsnfsServer) (port : Word) : VsnfsServer :=
  { server with memory := overwrite server.memory portOffset (leBytes port) }

/-- The C string at `ip_addr`. -/
def ipAddr (server : VsnfsServer) : List Byte := cstrOf server.memory

def setMntPath (server : VsnfsServer) (pointer : BitVec 64) (text : Option (List Byte)) : VsnfsServer :=
  { server with
    memory := overwrite server.memory mntPathOffset
      (leBytes (pointer.setWidth 32) ++ leBytes ((pointer >>> 32).setWidth 32))
    mntPath := text }

/-- The values the parser starts from. -/
def withDefaults (server : VsnfsServer) : VsnfsServer :=
  { server.setServerPort (BitVec.ofNat 32 vsnfsPort) with timeout := vsnfsTimeout }

end VsnfsServer

/-- The device name of a mount, a C string. -/
structure DevName where
  text : List Byte
  htext : ∀ byte ∈ text, byte ≠ 0

namespace DevName

/-- The text in front of the first colon, and the text behind it. -/
def host (dev : DevName) : List Byte := dev.text.takeWhile (fun byte => byte ≠ charByte ':')

def path (dev : DevName) : List Byte := dev.text.drop (dev.host.length + 1)

end DevName

/-- The result, and the address at `dst` after the call. -/
def vsnfsInetPton {Address : Type} (pton : Pton Address) (family : AddressFamily) (cp : List Byte)
    (dst : Address) : Int × Address :=
  let found :=
    match family with
    | .inet => pton.in4 cp
    | .inet6 => pton.in6 cp
    | .other => none
  match found with
  | some address => (1, address)
  | none => (0, dst)

/-- `dup` is the pointer `kstrndup` returns, `none` when there is no memory. -/
def vsnfsParseMntpath (dup : Option (BitVec 64)) (dev : DevName) (server : VsnfsServer) :
    Int × VsnfsServer :=
  if charByte ':' ∉ dev.text then (-VsnfsStat.inval.code, server)
  else if vsnfsMaxnamlen < dev.host.length then (-VsnfsStat.nametoolong.code, server)
  else
    let server := { server with memory := overwrite server.memory 0 (dev.host ++ [0]) }
    if vsnfsMaxpathlen < dev.path.length then (-VsnfsStat.nametoolong.code, server)
    else
      match dup with
      | none => (-enomem, server.setMntPath 0 none)
      | some pointer => (0, server.setMntPath pointer (some dev.path))

/-! ### Options -/

/-- The entry of `tokens` a segment matches, with the text of its number. -/
inductive Token where
  | port (value : List Byte)
  | timeout (value : List Byte)
  | err
  deriving DecidableEq

/-- A pattern of a key and `%u`: the key, and one unsigned number as the whole rest. -/
def matchPattern (key segment : List Byte) : Bool :=
  key.isPrefixOf segment && (unsignedNumber (segment.drop key.length)).isSome

abbrev portKey : List Byte := ['p', 'o', 'r', 't', '='].map charByte

abbrev timeoutKey : List Byte := ['t', 'i', 'm', 'e', 'o', 'u', 't', '='].map charByte

def matchToken (segment : List Byte) : Token :=
  if matchPattern portKey segment then .port (segment.drop portKey.length)
  else if matchPattern timeoutKey segment then .timeout (segment.drop timeoutKey.length)
  else .err

/-- The number of a matched option as the `int` it is stored in. -/
def optionInt (value : List Byte) : Word := (simpleStrtol value).setWidth 32

/-- The `switch` of the option loop. -/
def applyToken (server : VsnfsServer) : Token → VsnfsServer
  | .port value =>
      { server.setServerPort (optionInt value) with sinPort := htons ((optionInt value).setWidth 16) }
  | .timeout value => { server with timeout := (optionInt value).toInt }
  | .err => server

/-- One round of the option loop. -/
def parseOption (server : VsnfsServer) (segment : List Byte) : VsnfsServer :=
  if segment = [] then server else applyToken server (matchToken segment)

/-- The segments `strsep` gives; a null pointer gives none. -/
def segments (rawData : Option (List Byte)) : List (List Byte) :=
  match rawData with
  | none => []
  | some text => text.splitOn (charByte ',')

def vsnfsParseMountOptions (pton : Pton Word) (dup : Option (BitVec 64)) (rawData : Option (List Byte))
    (dev : DevName) (server : VsnfsServer) : Int × VsnfsServer :=
  let (rc, server) := vsnfsParseMntpath dup dev server.withDefaults
  if rc ≠ 0 then (rc, server)
  else
    let server := { server with sinFamily := 2, sinPort := htons (BitVec.ofNat 16 vsnfsPort) }
    let (rc, address) := vsnfsInetPton pton .inet server.ipAddr server.sinAddr
    let server := { server with sinAddr := address }
    if rc < 0 then (rc, server)
    else (rc, runFrom parseOption { server with clAddrlen := 16 } (segments rawData))

/-! ### The source -/

/-- The device name passes the tests of its two parts. -/
def DevName.Accepted (dev : DevName) : Prop :=
  charByte ':' ∈ dev.text ∧ dev.host.length ≤ vsnfsMaxnamlen ∧ dev.path.length ≤ vsnfsMaxpathlen

/-- The structure after `vsnfs_parse_mntpath` has accepted the name: the host at `ip_addr`, and the
pointer to the path over whatever of the host reaches that far. -/
def stored (dev : DevName) (pointer : BitVec 64) (server : VsnfsServer) : VsnfsServer :=
  let server := server.withDefaults
  VsnfsServer.setMntPath { server with memory := overwrite server.memory 0 (dev.host ++ [0]) } pointer
    (some dev.path)

/-- The mount succeeds exactly for a colon, an address in front of it and a path that is not too long,
and then both are in the structure. -/
def SourceParsed (pton : Pton Word) (dev : DevName) (result : Int × VsnfsServer) : Prop :=
  (0 ≤ result.1 ↔ charByte ':' ∈ dev.text ∧ (pton.in4 dev.host).isSome ∧
    dev.path.length ≤ vsnfsMaxpathlen) ∧
  (0 ≤ result.1 → result.2.mntPath = some dev.path ∧ pton.in4 dev.host = some result.2.sinAddr)

/-- The text is rejected for a reason the parser tests, or its host is an address and stands unchanged where
it is read: up to 23 bytes of it lie in front of the pointer to the path. -/
def SourceReadable (pton : Pton Word) (dev : DevName) : Prop :=
  charByte ':' ∉ dev.text ∨ vsnfsMaxpathlen < dev.path.length ∨
    (vsnfsMaxnamlen < dev.host.length ∧ pton.in4 dev.host = none) ∨
    (dev.host.length < VsnfsServer.mntPathOffset ∧ (pton.in4 dev.host).isSome)

/-- The host is an address, and the pointer to the path is stored over the end of its copy before that is
read. -/
structure HostOverwritten (pton : Pton Word) (dev : DevName) : Prop where
  accepted : dev.Accepted
  reaches : VsnfsServer.mntPathOffset ≤ dev.host.length
  address : (pton.in4 dev.host).isSome

theorem DevName.host_ne_zero (dev : DevName) : ∀ byte ∈ dev.host, byte ≠ 0 :=
  fun byte hbyte => dev.htext byte ((List.takeWhile_sublist _).subset hbyte)

/-- A short host is the C string at `ip_addr`. -/
theorem stored_ipAddr_of_short {dev : DevName} (pointer : BitVec 64) (server : VsnfsServer)
    (hshort : dev.host.length < VsnfsServer.mntPathOffset) :
    (stored dev pointer server).ipAddr = dev.host := by
  simp only [VsnfsServer.mntPathOffset] at hshort
  simp only [stored, VsnfsServer.setMntPath, VsnfsServer.ipAddr, overwrite_zero]
  have hbehind : (dev.host ++ [0]).length ≤ 24 := by
    rw [List.length_append, List.length_singleton]
    omega
  rw [overwrite_behind hbehind, List.append_assoc, List.singleton_append, cstrOf_append_zero dev.host_ne_zero]

/-! The copy of the host is also kept on the array `ip_addr` alone, with every byte it writes on record. -/

/-- The array `ip_addr` with the copy of the host and its terminator, where the name comes that far. -/
def ipAddrCopied (dev : DevName) (server : VsnfsServer) : Buffer :=
  let ipAddr := Buffer.alloc VsnfsServer.portOffset server.memory
  if charByte ':' ∉ dev.text ∨ vsnfsMaxnamlen < dev.host.length then ipAddr
  else (ipAddr.put 0 dev.host).put dev.host.length [0]

/-- The record with what the copy of the host leaves of it. -/
def VsnfsServer.copied (server : VsnfsServer) (dev : DevName) : VsnfsServer :=
  { server with memory := (ipAddrCopied dev server).cells }

theorem VsnfsServer.copied_of_host {dev : DevName} (hcolon : charByte ':' ∈ dev.text)
    (hhost : dev.host.length ≤ vsnfsMaxnamlen) (server : VsnfsServer) :
    server.copied dev = { server with memory := overwrite server.memory 0 (dev.host ++ [0]) } := by
  rw [VsnfsServer.copied, ipAddrCopied, if_neg (not_or.mpr ⟨not_not.mpr hcolon, by omega⟩), Buffer.put_cells,
    Buffer.put_cells, Buffer.alloc_cells, overwrite_overwrite_zero]

/-- Behind the copy, `mnt_path` of an accepted name is assigned. -/
theorem vsnfsParseMntpath_accepted {dev : DevName} (haccepted : dev.Accepted) (dup : Option (BitVec 64))
    (server : VsnfsServer) :
    vsnfsParseMntpath dup dev server = (if dup.isSome then 0 else -enomem,
      (server.copied dev).setMntPath (dup.getD 0) (dup.map fun _ => dev.path)) := by
  obtain ⟨hcolon, hhost, hpath⟩ := haccepted
  rw [vsnfsParseMntpath, if_neg (not_not.mpr hcolon), if_neg (by omega),
    VsnfsServer.copied_of_host hcolon hhost]
  simp only [show ¬ vsnfsMaxpathlen < dev.path.length by omega, if_false]
  cases dup <;> rfl

/-- A name that is not accepted gives a negative number, and the copy is all that is done to the record. -/
theorem vsnfsParseMntpath_refused {dev : DevName} (hnot : ¬ dev.Accepted) (dup : Option (BitVec 64))
    (server : VsnfsServer) :
    (vsnfsParseMntpath dup dev server).1 < 0 ∧ (vsnfsParseMntpath dup dev server).2 = server.copied dev := by
  have hinval : -(VsnfsStat.inval.code : Int) < 0 := by decide
  have htoolong : -(VsnfsStat.nametoolong.code : Int) < 0 := by decide
  rw [vsnfsParseMntpath]
  by_cases hcolon : charByte ':' ∈ dev.text
  · rw [if_neg (not_not.mpr hcolon)]
    by_cases hhost : vsnfsMaxnamlen < dev.host.length
    · rw [if_pos hhost, VsnfsServer.copied, ipAddrCopied, if_pos (.inr hhost)]
      exact ⟨htoolong, rfl⟩
    · have hpath : vsnfsMaxpathlen < dev.path.length := by
        by_contra hpath
        exact hnot ⟨hcolon, by omega, by omega⟩
      rw [if_neg hhost, VsnfsServer.copied_of_host hcolon (by omega)]
      simp only [if_pos hpath]
      exact ⟨htoolong, trivial⟩
  · rw [if_pos hcolon, VsnfsServer.copied, ipAddrCopied, if_pos (.inl hcolon)]
    exact ⟨hinval, rfl⟩

theorem stored_eq_copied {dev : DevName} (haccepted : dev.Accepted) (pointer : BitVec 64)
    (server : VsnfsServer) :
    stored dev pointer server = (server.withDefaults.copied dev).setMntPath pointer (some dev.path) := by
  rw [VsnfsServer.copied_of_host haccepted.1 haccepted.2.1, stored]

/-- What the address parser leaves of the address: the one it found, or the old one. -/
theorem vsnfsInetPton_inet (pton : Pton Word) (cp : List Byte) (dst : Word) :
    vsnfsInetPton pton .inet cp dst =
      (((if (pton.in4 cp).isSome then 1 else 0) : Int), (pton.in4 cp).getD dst) := by
  rw [vsnfsInetPton]
  cases pton.in4 cp <;> rfl

/-- The structure the option loop starts from. -/
def addressed (pton : Pton Word) (dev : DevName) (pointer : BitVec 64) (server : VsnfsServer) :
    VsnfsServer :=
  { stored dev pointer server with
    sinFamily := 2
    sinPort := htons (BitVec.ofNat 16 vsnfsPort)
    sinAddr := (pton.in4 (stored dev pointer server).ipAddr).getD server.sinAddr
    clAddrlen := 16 }

/-- The whole parser on an accepted name. -/
theorem vsnfsParseMountOptions_of_accepted {dev : DevName} (haccepted : dev.Accepted) (pton : Pton Word)
    (pointer : BitVec 64) (rawData : Option (List Byte)) (server : VsnfsServer) :
    vsnfsParseMountOptions pton (some pointer) rawData dev server =
      (((if (pton.in4 (stored dev pointer server).ipAddr).isSome then 1 else 0) : Int),
        runFrom parseOption (addressed pton dev pointer server) (segments rawData)) := by
  have hnonneg : ∀ found : Option Word, ¬ ((if found.isSome then 1 else 0 : Int) < 0) := by
    intro found
    split <;> decide
  rw [vsnfsParseMountOptions]
  simp only [vsnfsParseMntpath_accepted haccepted, Option.isSome_some, if_true, Option.getD_some,
    Option.map_some, ← stored_eq_copied haccepted]
  rw [if_neg (not_not.mpr rfl), vsnfsInetPton_inet]
  exact if_neg (hnonneg _)

theorem vsnfsParseMountOptions_of_not_accepted {dev : DevName} (hnot : ¬ dev.Accepted) (pton : Pton Word)
    (dup : Option (BitVec 64)) (rawData : Option (List Byte)) (server : VsnfsServer) :
    (vsnfsParseMountOptions pton dup rawData dev server).1 < 0 := by
  have hneg := (vsnfsParseMntpath_refused hnot dup server.withDefaults).1
  rw [vsnfsParseMountOptions]
  simp only
  rw [if_pos (by omega)]
  exact hneg

/-- **The parser succeeds exactly for accepted names**, whether the host is an address or not. -/
theorem vsnfsParseMountOptions_nonneg_iff (pton : Pton Word) (pointer : BitVec 64)
    (rawData : Option (List Byte)) (dev : DevName) (server : VsnfsServer) :
    0 ≤ (vsnfsParseMountOptions pton (some pointer) rawData dev server).1 ↔ dev.Accepted := by
  by_cases haccepted : dev.Accepted
  · rw [vsnfsParseMountOptions_of_accepted haccepted]
    refine iff_of_true ?_ haccepted
    simp only
    split <;> decide
  · have hneg := vsnfsParseMountOptions_of_not_accepted haccepted pton (some pointer) rawData server
    exact iff_of_false (by omega) haccepted

theorem parseOption_source (server : VsnfsServer) (segment : List Byte) :
    (parseOption server segment).mntPath = server.mntPath ∧
      (parseOption server segment).sinAddr = server.sinAddr := by
  rw [parseOption]
  split
  · exact ⟨rfl, rfl⟩
  · cases matchToken segment <;> exact ⟨rfl, rfl⟩

/-- The options change neither the path nor the address. -/
theorem parseOptions_source (server : VsnfsServer) (texts : List (List Byte)) :
    (runFrom parseOption server texts).mntPath = server.mntPath ∧
      (runFrom parseOption server texts).sinAddr = server.sinAddr := by
  refine run_invariant
    (I := fun other : VsnfsServer => other.mntPath = server.mntPath ∧ other.sinAddr = server.sinAddr)
    (fun other segment hother => ?_) ⟨rfl, rfl⟩ texts
  obtain ⟨hpath, haddr⟩ := parseOption_source other segment
  exact ⟨hpath.trans hother.1, haddr.trans hother.2⟩

section Parsed

variable (pton : Pton Word) (pointer : BitVec 64) (rawData : Option (List Byte)) {dev : DevName}
  (server : VsnfsServer)

/-- An accepted source whose host is an address in front of the pointer is parsed as written. -/
theorem sourceParsed_of_short (haccepted : dev.Accepted) (hshort : dev.host.length < VsnfsServer.mntPathOffset)
    (haddress : (pton.in4 dev.host).isSome) :
    SourceParsed pton dev (vsnfsParseMountOptions pton (some pointer) rawData dev server) := by
  obtain ⟨hpath, haddr⟩ := parseOptions_source (addressed pton dev pointer server) (segments rawData)
  obtain ⟨address, hfound⟩ := Option.isSome_iff_exists.mp haddress
  rw [SourceParsed, vsnfsParseMountOptions_nonneg_iff, vsnfsParseMountOptions_of_accepted haccepted]
  simp only [hpath, haddr]
  refine ⟨iff_of_true haccepted ⟨haccepted.1, haddress, haccepted.2.2⟩, fun _ => ⟨rfl, ?_⟩⟩
  simp only [addressed, stored_ipAddr_of_short pointer server hshort, hfound, Option.getD_some]

/-- An accepted source that is parsed as written has an address for its host. -/
theorem address_of_sourceParsed (haccepted : dev.Accepted)
    (hparsed : SourceParsed pton dev (vsnfsParseMountOptions pton (some pointer) rawData dev server)) :
    (pton.in4 dev.host).isSome := by
  rw [SourceParsed, vsnfsParseMountOptions_nonneg_iff] at hparsed
  exact (hparsed.1.mp haccepted).2.1

/-- A source that is not accepted is to be one that cannot be read. -/
theorem sourceParsed_refused_iff (hrefused : ¬ dev.Accepted) :
    SourceParsed pton dev (vsnfsParseMountOptions pton (some pointer) rawData dev server) ↔
      SourceReadable pton dev := by
  rw [SourceParsed, vsnfsParseMountOptions_nonneg_iff]
  refine ⟨fun hparsed => ?_, fun hreadable => ⟨?_, fun h => absurd h hrefused⟩⟩
  · by_cases hcolon : charByte ':' ∈ dev.text
    · by_cases hlong : vsnfsMaxpathlen < dev.path.length
      · exact .inr (.inl hlong)
      · have hover : vsnfsMaxnamlen < dev.host.length := by
          by_contra hhost
          exact hrefused ⟨hcolon, by omega, by omega⟩
        have hnone : pton.in4 dev.host = none := by
          refine Option.not_isSome_iff_eq_none.mp fun haddress => ?_
          exact hrefused (hparsed.1.mpr ⟨hcolon, haddress, by omega⟩)
        exact .inr (.inr (.inl ⟨hover, hnone⟩))
    · exact .inl hcolon
  · refine iff_of_false hrefused ?_
    rintro ⟨hcolon, haddress, hlength⟩
    obtain hno | hlong | ⟨-, hnone⟩ | ⟨hhost, -⟩ := hreadable
    · exact hno hcolon
    · omega
    · rw [hnone] at haddress
      exact absurd haddress (by decide)
    · simp only [VsnfsServer.mntPathOffset] at hhost
      exact hrefused ⟨hcolon, by simp only [vsnfsMaxnamlen]; omega, hlength⟩

end Parsed

/-- **When the mount source is parsed as written**: always when it is readable, and otherwise at most for a
host that is overwritten before it is read. -/
theorem mount_source_parsed (pton : Pton Word) (pointer : BitVec 64) (rawData : Option (List Byte))
    (dev : DevName) (server : VsnfsServer) :
    (SourceReadable pton dev →
        SourceParsed pton dev (vsnfsParseMountOptions pton (some pointer) rawData dev server)) ∧
      (SourceParsed pton dev (vsnfsParseMountOptions pton (some pointer) rawData dev server) →
        SourceReadable pton dev ∨ HostOverwritten pton dev) := by
  by_cases haccepted : dev.Accepted
  · refine ⟨?_, fun hparsed => ?_⟩
    · rintro (hno | hlong | ⟨hover, -⟩ | ⟨hshort, haddress⟩)
      · exact absurd haccepted.1 hno
      · exact absurd haccepted.2.2 (by omega)
      · exact absurd haccepted.2.1 (by omega)
      · exact sourceParsed_of_short pton pointer rawData server haccepted hshort haddress
    · have haddress := address_of_sourceParsed pton pointer rawData server haccepted hparsed
      by_cases hshort : dev.host.length < VsnfsServer.mntPathOffset
      · exact .inl (.inr (.inr (.inr ⟨hshort, haddress⟩)))
      · exact .inr ⟨haccepted, by omega, haddress⟩
  · have hrefused := sourceParsed_refused_iff pton pointer rawData server haccepted
    exact ⟨hrefused.mpr, fun hparsed => .inl (hrefused.mp hparsed)⟩

/-- A parser that knows the one address `10.0.0.1`. -/
def onlyPrivate : Pton Word where
  in4 := fun text =>
    if text = ['1', '0', '.', '0', '.', '0', '.', '1'].map charByte then some 0x0100000a else none
  in6 := fun _ => none

/-- The structure as `kzalloc` gives it. -/
def zeroedServer : VsnfsServer := ⟨0, 0, 0, 0, 0, [], none⟩

/-- The source `x:/a`, whose host is no address. -/
def devOfX : DevName := ⟨['x', ':', '/', 'a'].map charByte, by decide⟩

/-- The source `x:/a` is accepted, with the address 0.0.0.0. -/
theorem mount_source_not_parsed :
    (vsnfsParseMountOptions onlyPrivate (some 0x1000) none devOfX zeroedServer).1 = 0 ∧
      (vsnfsParseMountOptions onlyPrivate (some 0x1000) none devOfX zeroedServer).2.sinAddr = 0 ∧
      ¬ SourceParsed onlyPrivate devOfX
        (vsnfsParseMountOptions onlyPrivate (some 0x1000) none devOfX zeroedServer) := by
  refine ⟨by decide, by decide, fun hparsed => ?_⟩
  exact absurd (hparsed.1.mp (by decide)).2.1 (by decide)

/-! ### The record behind the address

`root_fh` lies behind the pointer, and whatever the copy of the host writes behind the array reaches the
port first. -/

namespace VsnfsServer

abbrev rootFhOffset : Nat := 32

/-- The bytes of the field of `size` bytes at `offset` behind the start of `ip_addr`. -/
def fieldBytes (server : VsnfsServer) (offset size : Nat) : List Byte :=
  (List.range size).map fun index => server.memory.getD (offset + index) 0

theorem fieldBytes_congr {server other : VsnfsServer} {offset size : Nat}
    (h : ∀ index, index < size → server.memory.getD (offset + index) 0 = other.memory.getD (offset + index) 0) :
    server.fieldBytes offset size = other.fieldBytes offset size := by
  apply List.map_congr_left
  intro index hindex
  exact h index (List.mem_range.mp hindex)

/-- The bytes of a pointer. -/
def pointerBytes (pointer : BitVec 64) : List Byte :=
  leBytes (pointer.setWidth 32) ++ leBytes ((pointer >>> 32).setWidth 32)

theorem pointerBytes_length (pointer : BitVec 64) : (pointerBytes pointer).length = 8 := by
  rw [pointerBytes, List.length_append, leBytes_length, leBytes_length]

/-- The assignment to `mnt_path` changes the eight bytes of the pointer. -/
theorem setMntPath_getD (server : VsnfsServer) (pointer : BitVec 64) (text : Option (List Byte)) (index : Nat) :
    (server.setMntPath pointer text).memory.getD index 0 =
      if mntPathOffset ≤ index ∧ index < rootFhOffset then (pointerBytes pointer).getD (index - mntPathOffset) 0
      else server.memory.getD index 0 := by
  rw [setMntPath, ← pointerBytes, overwrite_getD, pointerBytes_length]

theorem setMntPath_fieldBytes (server : VsnfsServer) (pointer : BitVec 64) (text : Option (List Byte)) :
    (server.setMntPath pointer text).fieldBytes mntPathOffset 8 = pointerBytes pointer := by
  apply List.ext_getElem
  · rw [fieldBytes, List.length_map, List.length_range, pointerBytes_length]
  · intro index hleft hright
    have hindex : index < 8 := by rwa [pointerBytes_length] at hright
    have hfield : mntPathOffset ≤ mntPathOffset + index ∧ mntPathOffset + index < rootFhOffset :=
      ⟨Nat.le_add_right _ _, Nat.add_lt_add_left hindex mntPathOffset⟩
    simp only [fieldBytes, List.getElem_map, List.getElem_range]
    rw [setMntPath_getD, if_pos hfield, Nat.add_sub_cancel_left, List.getD_eq_getElem _ _ hright]

end VsnfsServer

/-- The parser writes no byte through `ip_addr` outside that array: the fields behind it keep their
values, `mnt_path` apart from its own assignment, and so do the fields in front. -/
structure ParserInside (dup : Option (BitVec 64)) (dev : DevName) (server : VsnfsServer) : Prop where
  writes : (ipAddrCopied dev server).WritesInside
  port : (vsnfsParseMntpath dup dev server).2.fieldBytes VsnfsServer.portOffset 4 =
    server.fieldBytes VsnfsServer.portOffset 4
  assigned : dev.Accepted → (vsnfsParseMntpath dup dev server).2.fieldBytes VsnfsServer.mntPathOffset 8 =
    VsnfsServer.pointerBytes (dup.getD 0)
  unassigned : ¬ dev.Accepted → (vsnfsParseMntpath dup dev server).2.fieldBytes VsnfsServer.mntPathOffset 8 =
    server.fieldBytes VsnfsServer.mntPathOffset 8
  rootFh : (vsnfsParseMntpath dup dev server).2.fieldBytes VsnfsServer.rootFhOffset (vsnfsFhsize + 4) =
    server.fieldBytes VsnfsServer.rootFhOffset (vsnfsFhsize + 4)
  front : (vsnfsParseMntpath dup dev server).2 =
    { server with
      memory := (vsnfsParseMntpath dup dev server).2.memory
      mntPath := (vsnfsParseMntpath dup dev server).2.mntPath }

theorem ipAddrCopied_size (dev : DevName) (server : VsnfsServer) :
    (ipAddrCopied dev server).size = VsnfsServer.portOffset := by
  rw [ipAddrCopied]
  split <;> rfl

theorem ipAddrCopied_keepsUnwritten (dev : DevName) (server : VsnfsServer) :
    (ipAddrCopied dev server).KeepsUnwritten server.memory := by
  rw [ipAddrCopied]
  split
  · exact Buffer.alloc_keepsUnwritten _ _
  · apply Buffer.put_keepsUnwritten
    apply Buffer.put_keepsUnwritten
    exact Buffer.alloc_keepsUnwritten _ _

/-- **The copy stays inside the array** for no copy at all, or a host that leaves room for its
terminator. -/
theorem ipAddrCopied_writesInside_iff (dev : DevName) (server : VsnfsServer) :
    (ipAddrCopied dev server).WritesInside ↔
      charByte ':' ∉ dev.text ∨ vsnfsMaxnamlen < dev.host.length ∨
        dev.host.length < VsnfsServer.portOffset := by
  rw [ipAddrCopied]
  split
  · rename_i hrefused
    refine iff_of_true (Buffer.alloc_writesInside _ _) ?_
    exact hrefused.imp_right Or.inl
  · rename_i hcopied
    obtain ⟨hcolon, hhost⟩ := not_or.mp hcopied
    simp only [Buffer.put_writesInside_iff, Buffer.alloc_writesInside, Buffer.put_size, Buffer.alloc_size,
      List.length_singleton, List.cons_ne_nil, false_or, true_and, hcolon, hhost]
    omega

/-- A byte behind the array that is not one of the pointer's keeps its value when the copy stays inside,
and so do the pointer's when they are not assigned. -/
theorem vsnfsParseMntpath_keeps {dev : DevName} {server : VsnfsServer}
    (hinside : (ipAddrCopied dev server).WritesInside) (dup : Option (BitVec 64)) {index : Nat}
    (hbehind : VsnfsServer.portOffset ≤ index)
    (hother : dev.Accepted → index < VsnfsServer.mntPathOffset ∨ VsnfsServer.rootFhOffset ≤ index) :
    (vsnfsParseMntpath dup dev server).2.memory.getD index 0 = server.memory.getD index 0 := by
  have hcopied : (server.copied dev).memory.getD index 0 = server.memory.getD index 0 := by
    refine (ipAddrCopied_keepsUnwritten dev server).behind hinside ?_
    rwa [ipAddrCopied_size]
  by_cases haccepted : dev.Accepted
  · have hnot := hother haccepted
    rw [vsnfsParseMntpath_accepted haccepted, VsnfsServer.setMntPath_getD, if_neg (by omega)]
    exact hcopied
  · rw [(vsnfsParseMntpath_refused haccepted dup server).2]
    exact hcopied

/-- The parser leaves the fields in front of `ip_addr` alone. -/
theorem vsnfsParseMntpath_front (dup : Option (BitVec 64)) (dev : DevName) (server : VsnfsServer) :
    (vsnfsParseMntpath dup dev server).2 =
      { server with
        memory := (vsnfsParseMntpath dup dev server).2.memory
        mntPath := (vsnfsParseMntpath dup dev server).2.mntPath } := by
  by_cases haccepted : dev.Accepted
  · rw [vsnfsParseMntpath_accepted haccepted]
    rfl
  · rw [(vsnfsParseMntpath_refused haccepted dup server).2]
    rfl

/-- **When the parser stays inside the record.** -/
theorem mount_parser_inside_iff (dup : Option (BitVec 64)) (dev : DevName) (server : VsnfsServer) :
    ParserInside dup dev server ↔
      charByte ':' ∉ dev.text ∨ vsnfsMaxnamlen < dev.host.length ∨
        dev.host.length < VsnfsServer.portOffset := by
  rw [← ipAddrCopied_writesInside_iff dev server]
  refine ⟨ParserInside.writes, fun hinside => ?_⟩
  have hkeeps : ∀ offset index, VsnfsServer.portOffset ≤ offset →
      (dev.Accepted → offset + index < VsnfsServer.mntPathOffset ∨ VsnfsServer.rootFhOffset ≤ offset) →
      (vsnfsParseMntpath dup dev server).2.memory.getD (offset + index) 0 =
        server.memory.getD (offset + index) 0 := by
    intro offset index hoffset hother
    refine vsnfsParseMntpath_keeps hinside dup (by omega) fun haccepted => ?_
    exact (hother haccepted).imp_right (by omega)
  refine ⟨hinside, ?_, fun haccepted => ?_, fun hnot => ?_, ?_, vsnfsParseMntpath_front dup dev server⟩
  · apply VsnfsServer.fieldBytes_congr
    intro index hindex
    have hfront : VsnfsServer.portOffset + index < VsnfsServer.mntPathOffset := by
      simp only [VsnfsServer.portOffset, VsnfsServer.mntPathOffset]
      omega
    exact hkeeps _ index le_rfl fun _ => .inl hfront
  · rw [vsnfsParseMntpath_accepted haccepted]
    exact VsnfsServer.setMntPath_fieldBytes _ _ _
  · apply VsnfsServer.fieldBytes_congr
    intro index _
    exact hkeeps _ index (by decide) fun haccepted => absurd haccepted hnot
  · apply VsnfsServer.fieldBytes_congr
    intro index _
    exact hkeeps _ index (by decide) fun _ => .inr le_rfl

/-- The source `1111111111111111:/a`, with a host of sixteen bytes. -/
def devOfSixteen : DevName := ⟨List.replicate 16 (charByte '1') ++ [':', '/', 'a'].map charByte, by decide⟩

/-- A host of sixteen bytes puts its terminator into the port: 6789 becomes 6656. -/
theorem sixteen_byte_host_changes_port :
    ¬ ParserInside (some 0x1000) devOfSixteen zeroedServer.withDefaults ∧
      zeroedServer.withDefaults.serverPort = 6789 ∧
      (vsnfsParseMntpath (some 0x1000) devOfSixteen zeroedServer.withDefaults).2.serverPort = 6656 := by
  refine ⟨fun hinside => ?_, by decide, by decide⟩
  exact absurd hinside.port (by decide)

end Vsnfs
