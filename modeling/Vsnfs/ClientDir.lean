import Vsnfs.ClientXdr

/-! Reading a directory on the client. The reply page is decoded entry by entry and each entry is
handed to `filldir`, until an end marker, a failed `filldir` or an entry that is followed by the end
of the listing. The loop has no bound of its own and no length to compare with: a model run has a
number of rounds, and a round that would look behind the page is where it stops. -/

namespace Vsnfs

open Base

/-- How often the reply page was allocated, mapped, unmapped and released. -/
structure PageRefs where
  allocs : Nat
  kmaps : Nat
  kunmaps : Nat
  releases : Nat
  deriving DecidableEq

/-- The arguments of a `filldir` call; `name` is the bytes the pointer and the length stand for. -/
structure FilldirCall where
  name : List Byte
  offset : BitVec 64
  ino : BitVec 64
  dType : Word
  deriving DecidableEq

/-- `filldir` with its `dirent` argument: the result, and the caller's buffer after the call. -/
abbrev Filldir (Dirents : Type) := Dirents → FilldirCall → Int × Dirents

/-- The descriptor, the open file and the caller's buffer; `ptr` is the memory of the page from
`desc->ptr` on. -/
structure ReaddirState (Dirents : Type) where
  ptr : List Byte
  entry : VsnfsEntry
  dirents : Dirents
  fPos : Int
  refs : PageRefs

inductive Stop where
  | outOfRounds
  | outsidePage
  | returned (res : Int)
  deriving DecidableEq

section Loop

variable {Dirents : Type}

def dirDecode (state : ReaddirState Dirents) : Option (Int × ReaddirState Dirents) :=
  match vsnfsDecodeDirent state.ptr state.entry with
  | none => none
  | some (.error errno, entry) => some (errno, { state with entry := entry })
  | some (.ok p, entry) => some (0, { state with ptr := p, entry := entry })

def dirPageRelease (state : ReaddirState Dirents) : ReaddirState Dirents :=
  { state with
    ptr := []
    refs := { state.refs with kunmaps := state.refs.kunmaps + 1, releases := state.refs.releases + 1 } }

/-- What `filldir` is given for the current entry; `none` when the name is not all in the page. -/
def VsnfsEntry.call (entry : VsnfsEntry) : Option FilldirCall :=
  match takeBytes entry.len.toNat entry.name with
  | none => none
  | some (name, _) => some ⟨name, entry.offset, entry.ino, entry.fh.type⟩

def vsnfsDoFilldir (filldir : Filldir Dirents) :
    Nat → ReaddirState Dirents → Stop × ReaddirState Dirents
  | 0, state => (.outOfRounds, state)
  | rounds + 1, state =>
      match dirDecode state with
      | none => (.outsidePage, state)
      | some (status, state) =>
          if status < 0 then (.returned status, state)
          else
            match state.entry.call with
            | none => (.outsidePage, state)
            | some call =>
                let (res, dirents) := filldir state.dirents call
                let state := { state with dirents := dirents }
                if res < 0 then (.returned res, state)
                else if state.entry.eof = 1 then
                  (.returned res, dirPageRelease { state with fPos := 4096 })
                else vsnfsDoFilldir filldir rounds state

/-- The allocation of the page and the answer to the READDIR call. -/
structure ReaddirAnswer where
  alloc : Bool
  status : Int
  page : List Byte

def simpleReaddir (filldir : Filldir Dirents) (rounds : Nat) (answer : ReaddirAnswer)
    (state : ReaddirState Dirents) : Stop × ReaddirState Dirents :=
  if answer.alloc = false then (.returned (-enomem), state)
  else
    let state := { state with refs := { state.refs with allocs := state.refs.allocs + 1 } }
    if answer.status < 0 then (.returned answer.status, state)
    else
      let state := { state with
        ptr := answer.page
        refs := { state.refs with kmaps := state.refs.kmaps + 1 } }
      let (stop, state) := vsnfsDoFilldir filldir rounds state
      (stop, { state with entry := { state.entry with offset := 0, eof := 1 } })

/-- `vsnfs_readdir`: a listing is delivered from position 0 only, and a positive result becomes 0. -/
def vsnfsReaddir (filldir : Filldir Dirents) (rounds : Nat) (answer : ReaddirAnswer)
    (state : ReaddirState Dirents) : Stop × ReaddirState Dirents :=
  if state.fPos ≠ 0 then (.returned 0, state)
  else
    let state := { state with entry := { state.entry with eof := 0 } }
    let (stop, state) := simpleReaddir filldir rounds answer state
    match stop with
    | .returned res => (.returned (if 0 < res then 0 else res), state)
    | stop => (stop, state)

end Loop

end Vsnfs
