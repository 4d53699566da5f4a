import Vsnfs.Protocol

/-! The server's codec. A request is memory: its bytes and whatever lies behind them, with the length
that the final size check compares against. A name is only handed on after its length and its bytes
were checked, so an accepted name carries these checks. Replies are a head, which grows by words, and
for two procedures a page that the handler fills. -/

namespace Vsnfs

open Base

abbrev slash : Byte := 0x2f

/-! ### Arguments -/

def wordAt (mem : Nat → Byte) (p : Nat) : Word :=
  leWord (mem p) (mem (p + 1)) (mem (p + 2)) (mem (p + 3))

def bytesAt (mem : Nat → Byte) (p count : Nat) : List Byte :=
  (List.range count).map (fun index => mem (p + index))

/-- The memory that starts with these bytes. -/
def memOf (bytes : List Byte) : Nat → Byte := fun index => bytes.getD index 0

theorem bytesAt_length (mem : Nat → Byte) (p count : Nat) : (bytesAt mem p count).length = count := by
  rw [bytesAt, List.length_map, List.length_range]

/-- A name that `decode_filename` accepts. -/
structure FileName where
  bytes : List Byte
  hlength : bytes.length ≤ vsnfsMaxnamlen
  hclean : ∀ byte ∈ bytes, byte ≠ 0 ∧ byte ≠ slash

/-- A path that `decode_pathname` accepts. -/
structure PathName where
  bytes : List Byte
  hlength : bytes.length ≤ vsnfsMaxpathlen
  hclean : ∀ byte ∈ bytes, byte ≠ 0

def decodeFh (mem : Nat → Byte) (p : Nat) : VsnfsFh × Nat :=
  (⟨bytesAt mem p vsnfsFhsize, bytesAt_length mem p vsnfsFhsize, ntohl (wordAt mem (p + vsnfsFhsize))⟩,
    p + vsnfsFhsize + 4)

/-- `xdr_decode_string_inplace`: the string's bytes stay in the request. -/
def xdrDecodeStringInplace (mem : Nat → Byte) (p maxlen : Nat) : Option (List Byte × Nat) :=
  let len := ntohl (wordAt mem p)
  if maxlen < len.toNat then none
  else some (bytesAt mem (p + 4) len.toNat, p + 4 + 4 * (xdrQuadlen len).toNat)

theorem xdrDecodeStringInplace_length {mem : Nat → Byte} {p maxlen : Nat} {text : List Byte} {next : Nat}
    (h : xdrDecodeStringInplace mem p maxlen = some (text, next)) : text.length ≤ maxlen := by
  simp only [xdrDecodeStringInplace] at h
  split at h
  · cases h
  · rename_i hle
    simp only [Option.some.injEq, Prod.mk.injEq] at h
    rw [← h.1, bytesAt_length]
    omega

def decodeFilename (mem : Nat → Byte) (p : Nat) : Option (FileName × Nat) :=
  match h : xdrDecodeStringInplace mem p vsnfsMaxnamlen with
  | none => none
  | some (name, next) =>
      if hclean : ∀ byte ∈ name, byte ≠ 0 ∧ byte ≠ slash then
        some (⟨name, xdrDecodeStringInplace_length h, hclean⟩, next)
      else none

def decodePathname (mem : Nat → Byte) (p : Nat) : Option (PathName × Nat) :=
  match h : xdrDecodeStringInplace mem p vsnfsMaxpathlen with
  | none => none
  | some (path, next) =>
      if hclean : ∀ byte ∈ path, byte ≠ 0 then
        some (⟨path, xdrDecodeStringInplace_length h, hclean⟩, next)
      else none

def xdrArgsizeCheck (length p : Nat) : Bool := p ≤ length

structure GetrootArgs where
  path : PathName

/-- `after` is the memory behind the handle inside and behind the argument record; the handle's
parser can run into it. -/
structure LookupArgs where
  fh : VsnfsFh
  after : List Byte
  filename : FileName

structure ReaddirArgs where
  fh : VsnfsFh
  after : List Byte
  count : Nat
  hcount : count ≤ pageSize

structure ReadArgs where
  fh : VsnfsFh
  after : List Byte
  offset : Word
  count : Nat
  hcount : count ≤ pageSize

def vsnfssvcDecodeNullargs (mem : Nat → Byte) (length : Nat) : Option Word :=
  if xdrArgsizeCheck length 4 then some (ntohl (wordAt mem 0)) else none

def vsnfssvcDecodeGetrootargs (mem : Nat → Byte) (length : Nat) : Option GetrootArgs :=
  match decodePathname mem 0 with
  | none => none
  | some (path, p) => if xdrArgsizeCheck length p then some ⟨path⟩ else none

def vsnfssvcDecodeLookupargs (mem : Nat → Byte) (length : Nat) (after : List Byte) : Option LookupArgs :=
  let (fh, p) := decodeFh mem 0
  match decodeFilename mem p with
  | none => none
  | some (filename, p) => if xdrArgsizeCheck length p then some ⟨fh, after, filename⟩ else none

/-- A count or length is cut to one page. -/
def clampToPage (word : Word) : Nat := if pageSize < word.toNat then pageSize else word.toNat

theorem clampToPage_le (word : Word) : clampToPage word ≤ pageSize := by
  unfold clampToPage
  split <;> omega

theorem clampToPage_le_toNat (word : Word) : clampToPage word ≤ word.toNat := by
  unfold clampToPage
  split <;> omega

def vsnfssvcDecodeReaddirargs (mem : Nat → Byte) (length : Nat) (after : List Byte) :
    Option ReaddirArgs :=
  let (fh, p) := decodeFh mem 0
  let count := ntohl (wordAt mem p)
  if xdrArgsizeCheck length (p + 4) then some ⟨fh, after, clampToPage count, clampToPage_le count⟩
  else none

def vsnfssvcDecodeReadargs (mem : Nat → Byte) (length : Nat) (after : List Byte) : Option ReadArgs :=
  let (fh, p) := decodeFh mem 0
  let offset := ntohl (wordAt mem p)
  let len := ntohl (wordAt mem (p + 4))
  if xdrArgsizeCheck length (p + 8) then
    some ⟨fh, after, offset, clampToPage len, clampToPage_le len⟩
  else none

/-! ### Results -/

/-- The result side of a request: the address of the head, the head's bytes so far, and the length
of the page part. -/
structure SvcRes where
  base : Nat
  head : List Byte
  pageLen : Nat

/-- `xdr_ressize_check`: the head ends at `p`, and must not be longer than a page. -/
def xdrRessizeCheck (res : SvcRes) : Bool := res.head.length ≤ pageSize

def SvcRes.emit (res : SvcRes) (bytes : List Byte) : SvcRes := { res with head := res.head ++ bytes }

def encodeFh (fh : VsnfsFh) : List Byte := fh.data

def vsnfssvcEncodeNullres (res : SvcRes) (dummy : Word) : SvcRes × Bool :=
  let res := res.emit (leBytes (htonl dummy))
  (res, xdrRessizeCheck res)

def vsnfssvcEncodeFhandle (res : SvcRes) (fh : VsnfsFh) : SvcRes × Bool :=
  let res := (res.emit (encodeFh fh)).emit (leBytes (htonl fh.type))
  (res, xdrRessizeCheck res)

/-- `(((unsigned long)p - 1) & ~PAGE_MASK) + 1`: the offset of an address in its page, a whole page
counting as `PAGE_SIZE`. -/
def pageLenOf (address : Nat) : Nat := (address - 1) % pageSize + 1

/-- The page length is taken from the pointer into the head. -/
def vsnfssvcEncodeReadres (res : SvcRes) (count : BitVec 64) : SvcRes × Bool :=
  let res := res.emit (leBytes (htonl (count.setWidth 32)))
  let res := { res with pageLen := pageLenOf (res.base + res.head.length) }
  (res, xdrRessizeCheck res)

/-! ### Directory entries -/

/-- One call of the filler: what the file system passes to it. -/
structure Dirent where
  name : List Byte
  offset : BitVec 64
  ino : BitVec 64
  dType : Word
  deriving DecidableEq

/-- `struct vsnfsd_readdirres`, with the page that `buffer` and `offset` point into. Both are byte
offsets in that page; `buflen` counts words. -/
structure ReaddirRes where
  page : Buffer
  count : Int
  err : Word
  buffer : Nat
  buflen : Int
  offset : Option Nat

/-- Fill in the offset word of the entry before. -/
def ReaddirRes.patch (res : ReaddirRes) (offset : BitVec 64) : ReaddirRes :=
  match res.offset with
  | some place => { res with page := res.page.put place (leBytes (htonl (offset.setWidth 32))) }
  | none => res

/-- The handle an entry carries; `stack` is what the local structure held before. -/
def entryFh (stack : VsnfsFh) (ino : BitVec 64) (dType : Word) : VsnfsFh :=
  { stack.print ino with type := dType }

def vsnfssvcEncodeEntry (res : ReaddirRes) (name : List Byte) (namlen : Nat) (offset ino : BitVec 64)
    (dType : Word) (stack : VsnfsFh) : ReaddirRes × Int :=
  if 2 ^ 32 - 1 < offset.toInt then ({ res with err := vsnfserr .fbig }, -einval)
  else
    let res := res.patch offset
    let namlen := if vsnfsMaxnamlen < namlen then vsnfsMaxnamlen else namlen
    let slen := quadWords namlen
    let buflen := res.buflen - slen - (5 + quadWords vsnfsFhsize)
    if buflen < 0 then ({ res with err := vsnfserr .toosmall }, -einval)
    else if 2 ^ 32 - 1 < ino.toNat then ({ res with err := vsnfserr .fbig }, -einval)
    else
      let fh := entryFh stack ino dType
      let p : Cursor := ⟨res.page, res.buffer⟩
      let p := p.emit (leBytes (htonl 1))
      let p := p.emit (leBytes (htonl (ino.setWidth 32)))
      let p := p.emit (xdrEncodeArray (name.take namlen))
      let p := p.emit (encodeFh fh)
      let p := p.emit (leBytes (htonl fh.type))
      -- the pointer to this word is kept, so that the next call can fill it in
      let place := p.pos
      let p := p.emit (leBytes (htonl (BitVec.allOnes 32)))
      ({ res with page := p.buffer, buffer := p.pos, buflen := buflen, offset := some place }, 0)

/-- The end marker, and whether the listing is complete. -/
def vsnfssvcEncodeReaddirres (svc : SvcRes) (res : ReaddirRes) : SvcRes × ReaddirRes × Bool :=
  let p : Cursor := ⟨res.page, res.buffer⟩
  let p := p.emit (leBytes 0)
  let p := p.emit (leBytes (htonl (if res.err = vsnfserr .ok then 1 else 0)))
  ({ svc with pageLen := pageLenOf p.pos }, { res with page := p.buffer, buffer := p.pos }, true)

end Vsnfs
