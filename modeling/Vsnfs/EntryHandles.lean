import Vsnfs.ClientInodes
import Vsnfs.LookupKinds
import Vsnfs.ReaddirReply

/-! The handles of directory entries beside those of LOOKUP. Both producers print the inode number in the
same way. The filler of READDIR takes the type from the file system, in the numbering of `filldir`, for
which the client reads it; LOOKUP takes it from the inode, in the numbering of `vsnfs_fhget`. -/

namespace Vsnfs

open Base

abbrev dtReg : Word := 8
abbrev dtDir : Word := 4

/-- The entry that a call of the filler has put on the page, as the client finds it there. -/
def EntryAt (res : ReaddirRes) (call : FillerCall) (raw : RawDirent) : Prop :=
  (encodeCall res call).2 = 0 ∧
    ∃ rest, (encodeCall res call).1.page.cells.drop res.buffer = raw.bytes ++ rest

/-- On a page filled so far, that entry is the one of the call. -/
theorem EntryAt.eq_rawOf {count : Nat} {calls : List FillerCall} {last : Word} {res : ReaddirRes}
    (hpage : PageHolds count calls last res) {call : FillerCall} {raw : RawDirent}
    (hentry : EntryAt res call raw) : raw = rawOf call (BitVec.allOnes 32) := by
  obtain ⟨haccepted, rest, hdrop⟩ := hentry
  obtain ⟨tail, hcells⟩ := (hpage.accept haccepted).cells
  rw [listingBytes_append, List.append_assoc] at hcells
  have hfront : res.buffer = (listingBytes calls (call.1.offset.setWidth 32)).length :=
    hpage.buffer.trans (listingBytes_length calls last _)
  rw [hcells, hfront, List.drop_left] at hdrop
  exact (RawDirent.bytes_append_inj hdrop).1.symm

/-- LOOKUP of the entry's name with a handle of the table finds the object that the entry is of: its
number, and a kind that `d_type` matches. -/
structure Listed (nodes : List Node) (args : LookupArgs) (env : LookupEnv) (dirent : Dirent)
    (inode : Inode) : Prop where
  hname : args.filename.bytes = dirent.name
  hfound : ∃ node, findNode nodes (args.fh.ino args.after) = some node ∧
    lookupAnswer node args env = .found inode
  hok : (vsnfsdProcLookup (some nodes) args zeroFh env).status = some (vsnfserr .ok)
  hino : dirent.ino = inode.ino
  hkind : (inode.kind = .reg ∧ dirent.dType = dtReg) ∨ (inode.kind = .dir ∧ dirent.dType = dtDir)

theorem Listed.resp_eq {nodes : List Node} {args : LookupArgs} {env : LookupEnv} {dirent : Dirent}
    {inode : Inode} (h : Listed nodes args env dirent inode) :
    (vsnfsdProcLookup (some nodes) args zeroFh env).resp = lookupResp zeroFh inode := by
  obtain ⟨node, hfind, hanswer⟩ := h.hfound
  obtain ⟨other, hother, hresp⟩ := lookup_found_of_ok hfind h.hok
  obtain rfl : inode = other := PathLookup.found.inj (hanswer.symm.trans hother)
  exact hresp

/-- What the two handles of one number have in common: the printed number with its terminator, so the
number every consumer reads, and what `vsnfs_fhget` does when it has no new inode to fill in. -/
structure HandlesAgree (ino : BitVec 64) (entry found : VsnfsFh) : Prop where
  entryText : ∃ rest, entry.data = (decimalText ino.toInt).take 7 ++ 0 :: rest
  foundText : ∃ rest, found.data = (decimalText ino.toInt).take 7 ++ 0 :: rest
  number : ∀ after after', entry.ino after = found.ino after'
  fhget : ∀ cache after alloc, (∀ inode, igetLocked cache (found.ino after) alloc ≠ .new inode) →
    vsnfsFhget cache entry after alloc = vsnfsFhget cache found after alloc

theorem vsnfsFhget_congr {fh fh' : VsnfsFh} {after : List Byte} (hnumber : fh.ino after = fh'.ino after)
    (cache : InodeCache) (alloc : Option ClientInode)
    (hold : ∀ inode, igetLocked cache (fh'.ino after) alloc ≠ .new inode) :
    vsnfsFhget cache fh after alloc = vsnfsFhget cache fh' after alloc := by
  unfold vsnfsFhget
  rw [hnumber]
  cases higet : igetLocked cache (fh'.ino after) alloc with
  | null => simp only [higet]
  | found inode => simp only [higet]
  | new inode => exact absurd higet (hold inode)

theorem Printed.handlesAgree {ino : BitVec 64} {entry found : VsnfsFh} (hentry : Printed ino entry)
    (hfound : Printed ino found) : HandlesAgree ino entry found := by
  obtain ⟨base, hdata⟩ := hentry
  obtain ⟨base', hdata'⟩ := hfound
  obtain ⟨rest, hrest⟩ := base.print_data ino
  obtain ⟨rest', hrest'⟩ := base'.print_data ino
  have hnumber : ∀ after after', entry.ino after = found.ino after' := by
    intro after after'
    rw [VsnfsFh.ino, VsnfsFh.ino, hdata, hdata', hrest, hrest']
    simp only [List.append_assoc, List.cons_append]
    exact simpleStrtoul_terminated _ _ _
  exact ⟨⟨rest, hdata.trans hrest⟩, ⟨rest', hdata'.trans hrest'⟩, hnumber,
    fun cache after alloc => vsnfsFhget_congr (hnumber after after) cache alloc⟩

/-- **Entries and lookups.** For every entry on a page and the LOOKUP of its name: both handles hold the
same text and are read as the same number; the entry's type is its `d_type`, and that of LOOKUP is the
one of the protocol for the same kind. -/
theorem entry_handle_agrees_with_lookup {count : Nat} {calls : List FillerCall} {last : Word}
    {res : ReaddirRes} (hpage : PageHolds count calls last res) (dirent : Dirent) (stack : VsnfsFh)
    (raw : RawDirent) (hentry : EntryAt res (dirent, stack) raw) {nodes : List Node} {args : LookupArgs}
    {env : LookupEnv} {inode : Inode} (hlisted : Listed nodes args env dirent inode) :
    HandlesAgree dirent.ino raw.fh (vsnfsdProcLookup (some nodes) args zeroFh env).resp ∧
      raw.fh.type = dirent.dType ∧
      ((dirent.dType = dtReg ∧ (vsnfsdProcLookup (some nodes) args zeroFh env).resp.type = vsnfsReg) ∨
        (dirent.dType = dtDir ∧ (vsnfsdProcLookup (some nodes) args zeroFh env).resp.type = vsnfsDir)) := by
  rw [hentry.eq_rawOf hpage, hlisted.resp_eq]
  refine ⟨?_, rfl, ?_⟩
  · apply Printed.handlesAgree
    · exact ⟨stack, rfl⟩
    · rw [hlisted.hino]
      exact lookupResp_printed zeroFh inode
  · rcases hlisted.hkind with ⟨hkind, htype⟩ | ⟨hkind, htype⟩
    · refine Or.inl ⟨htype, ?_⟩
      rw [lookupResp, hkind]
    · refine Or.inr ⟨htype, ?_⟩
      rw [lookupResp, hkind]

/-! ### The file `foo` in the directory `/a` -/

/-- The entry of `foo`, a regular file with the number 8. -/
def fooEntry : Dirent := ⟨[0x66, 0x6f, 0x6f], 1, 8, dtReg⟩

def fooLookup : LookupArgs := ⟨zeroFh.print 5, [], ⟨[0x66, 0x6f, 0x6f], by decide, by decide⟩⟩

theorem fooEntry_at : EntryAt (readdirStart pageSize []) (fooEntry, zeroFh)
    (rawOf (fooEntry, zeroFh) (BitVec.allOnes 32)) := ⟨by decide, [], by decide⟩

theorem foo_listed : Listed [nodeOfF, nodeOfA] fooLookup siblingsEnv fooEntry ⟨8, .reg⟩ :=
  ⟨rfl, ⟨nodeOfA, by decide, by decide⟩, by decide, rfl, Or.inl ⟨rfl, rfl⟩⟩

theorem foo_handles_agree :
    HandlesAgree 8 (rawOf (fooEntry, zeroFh) (BitVec.allOnes 32)).fh
      (vsnfsdProcLookup (some [nodeOfF, nodeOfA]) fooLookup zeroFh siblingsEnv).resp :=
  (entry_handle_agrees_with_lookup (start_pageHolds pageSize [] 0) fooEntry zeroFh _ fooEntry_at foo_listed).1

/-- An inode as the allocator gives it. -/
def freshInode : ClientInode := ⟨0, 0, .empty, .empty, 0, 0, 1, 0, 0, none⟩

/-- After a mount of `/a`, the entry of `foo` has the type 8 where LOOKUP returns 1, and `vsnfs_fhget` makes
an inode without a mode from the one and a regular file from the other. -/
theorem foo_handles_differ :
    (runFrom step Server.load mountAndFile).head = some [nodeOfF, nodeOfA] ∧
      EntryAt (readdirStart pageSize []) (fooEntry, zeroFh) (rawOf (fooEntry, zeroFh) (BitVec.allOnes 32)) ∧
      Listed [nodeOfF, nodeOfA] fooLookup siblingsEnv fooEntry ⟨8, .reg⟩ ∧
      (rawOf (fooEntry, zeroFh) (BitVec.allOnes 32)).fh.type = 8 ∧
      (vsnfsdProcLookup (some [nodeOfF, nodeOfA]) fooLookup zeroFh siblingsEnv).resp.type = 1 ∧
      (vsnfsFhget noInodes (rawOf (fooEntry, zeroFh) (BitVec.allOnes 32)).fh [] (some freshInode)).1 ≠
        (vsnfsFhget noInodes (vsnfsdProcLookup (some [nodeOfF, nodeOfA]) fooLookup zeroFh siblingsEnv).resp []
          (some freshInode)).1 := by
  refine ⟨by decide, fooEntry_at, foo_listed, rfl, by decide, fun h => ?_⟩
  have hmode := congrArg (fun result => (Except.toOption result).map ClientInode.iMode) h
  exact absurd hmode (by decide)

end Vsnfs
