import Mathlib.Data.List.Forall2
import Vsnfs.ReaddirRoundTrip

/-! The READDIR reply of the server for every sequence of entries. A page holds at most one listing, so
its bytes say which entries it has. The entries in front of the first refused one are on it; the offset
word of the last and the flag behind the end marker depend on how the listing stopped. What the flag
says about the directory, and what the bytes say about the server's memory, is read off this reply. -/

namespace Vsnfs

open Base

/-! ### A page holds at most one listing -/

theorem beBytes_injective {left right : Word} (h : beBytes left = beBytes right) : left = right := by
  rw [← leBytes_htonl, ← leBytes_htonl] at h
  exact htonl_injective (leBytes_injective h)

theorem xdrEncodeFhandle_injective {left right : VsnfsFh}
    (h : xdrEncodeFhandle left = xdrEncodeFhandle right) : left = right := by
  have hleft := xdrDecodeFhandle_append left []
  rw [h, xdrDecodeFhandle_append] at hleft
  exact (congrArg Prod.fst (Option.some.inj hleft)).symm

/-- No entry is a proper start of another. -/
theorem RawDirent.bytes_append_inj {raw raw' : RawDirent} {rest rest' : List Byte}
    (h : raw.bytes ++ rest = raw'.bytes ++ rest') : raw = raw' ∧ rest = rest' := by
  obtain ⟨mark, ino, name, pad, fh, offset, hmark, hname, hpad⟩ := raw
  obtain ⟨mark', ino', name', pad', fh', offset', hmark', hname', hpad'⟩ := raw'
  simp only [RawDirent.bytes, List.append_assoc] at h hpad hpad'
  obtain ⟨h1, h⟩ := List.append_inj h rfl
  obtain ⟨h2, h⟩ := List.append_inj h rfl
  obtain ⟨h3, h⟩ := List.append_inj h rfl
  have hlen : name.length = name'.length := by
    have hnat := congrArg BitVec.toNat (beBytes_injective h3)
    rw [BitVec.toNat_ofNat, BitVec.toNat_ofNat] at hnat
    omega
  obtain ⟨h4, h⟩ := List.append_inj h hlen
  obtain ⟨h5, h⟩ := List.append_inj h (by rw [hpad, hpad', hlen])
  obtain ⟨h6, h⟩ := List.append_inj h (by rw [xdrEncodeFhandle_length, xdrEncodeFhandle_length])
  obtain ⟨h7, hrest⟩ := List.append_inj h rfl
  clear h h3 hlen
  subst h4 h5
  obtain rfl := leBytes_injective h1
  obtain rfl := beBytes_injective h2
  obtain rfl := xdrEncodeFhandle_injective h6
  obtain rfl := beBytes_injective h7
  exact ⟨rfl, hrest⟩

/-- The zero word of the end marker is no start of an entry. -/
theorem RawDirent.bytes_ne_zero (raw : RawDirent) (rest rest' : List Byte) :
    raw.bytes ++ rest ≠ leBytes 0 ++ rest' := by
  intro h
  simp only [RawDirent.bytes, List.append_assoc] at h
  exact raw.hmark (leBytes_injective (List.append_inj h rfl).1)

/-- **The format is unambiguous**: the entries of a page and what lies behind its end marker are
determined by its bytes. -/
theorem listing_unique {raws raws' : List RawDirent} {rest rest' : List Byte}
    (h : raws.flatMap RawDirent.bytes ++ (leBytes 0 ++ rest) =
      raws'.flatMap RawDirent.bytes ++ (leBytes 0 ++ rest')) : raws = raws' ∧ rest = rest' := by
  induction raws generalizing raws' with
  | nil =>
      cases raws' with
      | nil =>
          rw [List.flatMap_nil, List.nil_append, List.nil_append] at h
          exact ⟨rfl, (List.append_inj h rfl).2⟩
      | cons raw' raws' =>
          rw [List.flatMap_cons, List.append_assoc] at h
          exact absurd h.symm (raw'.bytes_ne_zero _ _)
  | cons raw raws ih =>
      rw [List.flatMap_cons, List.append_assoc] at h
      cases raws' with
      | nil => exact absurd h (raw.bytes_ne_zero _ _)
      | cons raw' raws' =>
          rw [List.flatMap_cons, List.append_assoc] at h
          obtain ⟨rfl, htail⟩ := RawDirent.bytes_append_inj h
          obtain ⟨rfl, hrest⟩ := ih htail
          exact ⟨rfl, hrest⟩

/-! ### What a sequence of entries leaves on the page -/

/-- The words an entry of the directory takes on the page. -/
def direntWords (dirent : Dirent) : Nat := quadWords (dirent.name.take vsnfsMaxnamlen).length + 7

/-- The offset and the number are small enough for their words. -/
def Dirent.Small (dirent : Dirent) : Prop :=
  dirent.offset.toInt ≤ 2 ^ 32 - 1 ∧ dirent.ino.toNat ≤ 2 ^ 32 - 1

/-- All these entries can be listed within a budget of words. -/
def Fits (budget : Int) (dirents : List Dirent) : Prop :=
  (∀ dirent ∈ dirents, dirent.Small) ∧ ((dirents.map direntWords).sum : Int) ≤ budget

/-- What the filler makes of a sequence of entries: how many it accepts, the offset word of the last
one, and its error. -/
structure Filled where
  count : Nat
  last : Word
  err : Word

/-- The filler on a budget of words; `last` is the offset word of the entry before. -/
def fill (budget : Int) (last : Word) : List Dirent → Filled
  | [] => ⟨0, last, vsnfserr .ok⟩
  | dirent :: dirents =>
      if 2 ^ 32 - 1 < dirent.offset.toInt then ⟨0, last, vsnfserr .fbig⟩
      else if budget < direntWords dirent then ⟨0, dirent.offset.setWidth 32, vsnfserr .toosmall⟩
      else if 2 ^ 32 - 1 < dirent.ino.toNat then ⟨0, dirent.offset.setWidth 32, vsnfserr .fbig⟩
      else
        let rest := fill (budget - direntWords dirent) (BitVec.allOnes 32) dirents
        { rest with count := rest.count + 1 }

theorem entryRoom_eq (res : ReaddirRes) (call : FillerCall) :
    entryRoom res call = res.buflen - direntWords call.1 := by
  rw [entryRoom, direntWords]
  omega

/-- The count and the error are no part of the page. -/
theorem PageHolds.close {count : Nat} {calls : List FillerCall} {last : Word} {res : ReaddirRes}
    (h : PageHolds count calls last res) (words : Int) (err : Word) :
    PageHolds count calls last { res with count := words, err := err } :=
  ⟨h.cells, h.buffer, h.offset, h.budget, h.room⟩

/-- **The filler's result.** Whatever was on the page and on the stack, the page holds the accepted
entries, and how many these are depends on the directory alone. -/
theorem PageHolds.filled {count : Nat} {before : List FillerCall} {last : Word} {res : ReaddirRes}
    (h : PageHolds count before last res) (herr : res.err = vsnfserr .ok) (calls : List FillerCall)
    {filled : Filled} (hfilled : fill res.buflen last (calls.map Prod.fst) = filled) :
    PageHolds count (before ++ calls.take filled.count) filled.last (vfsReaddir res calls) ∧
      (vfsReaddir res calls).err = filled.err := by
  subst hfilled
  induction calls generalizing before last res with
  | nil =>
      simp only [List.map_nil, fill, List.take_zero, List.append_nil]
      exact ⟨h, herr⟩
  | cons call calls ih =>
      rw [List.map_cons, fill, vfsReaddir]
      have hroomEq := entryRoom_eq res call
      have hpatch := h.patch call.1.offset
      have hrejected : (-einval : Int) ≠ 0 := by decide
      -- a refusal ends the sequence, with the word before it filled in unless the offset was too big
      cases encode_exit res call with
      | offsetTooBig hoffset hout =>
          rw [if_pos hoffset, hout, if_neg hrejected, List.take_zero, List.append_nil]
          exact ⟨h.close _ _, rfl⟩
      | noRoom hoffset hroom hout =>
          rw [if_neg (by omega), if_pos (by omega), hout, if_neg hrejected, List.take_zero,
            List.append_nil]
          exact ⟨hpatch.close _ _, rfl⟩
      | inoTooBig hoffset hroom hino hout =>
          rw [if_neg (by omega), if_neg (by omega), if_pos hino, hout, if_neg hrejected, List.take_zero,
            List.append_nil]
          exact ⟨hpatch.close _ _, rfl⟩
      | accepted hoffset hroom hino page hpage hout =>
          have hzero : (encodeCall res call).2 = 0 := by rw [hout]
          have hleft : (encodeCall res call).1.buflen = res.buflen - direntWords call.1 := by
            rw [hout, ← hroomEq]
          have hnext := ih (h.accept hzero) ((encodeCall_accepted_err hzero).1.trans herr)
          rw [hleft, List.append_assoc, List.singleton_append] at hnext
          rw [if_neg (by omega), if_neg (by omega), if_neg (by omega), if_pos hzero, List.take_succ_cons]
          exact hnext

theorem fits_nil_iff (budget : Int) : Fits budget [] ↔ 0 ≤ budget := by
  simp [Fits]

theorem fits_cons_iff (budget : Int) (dirent : Dirent) (dirents : List Dirent) :
    Fits budget (dirent :: dirents) ↔ dirent.Small ∧ Fits (budget - direntWords dirent) dirents := by
  simp only [Fits, List.forall_mem_cons, List.map_cons, List.sum_cons]
  constructor
  · rintro ⟨⟨hsmall, hrest⟩, hsum⟩
    exact ⟨hsmall, hrest, by omega⟩
  · rintro ⟨hsmall, hrest, hsum⟩
    exact ⟨⟨hsmall, hrest⟩, by omega⟩

theorem Fits.nonneg {budget : Int} {dirents : List Dirent} (h : Fits budget dirents) : 0 ≤ budget := by
  have := h.2
  omega

/-- The entries in front are accepted exactly when they can all be listed. -/
theorem fits_iff_le_count (budget : Int) (hbudget : 0 ≤ budget) (last : Word) (front rest : List Dirent) :
    Fits budget front ↔ front.length ≤ (fill budget last (front ++ rest)).count := by
  induction front generalizing budget last with
  | nil => simp [fits_nil_iff, hbudget]
  | cons dirent front ih =>
      rw [fits_cons_iff, List.cons_append, fill, List.length_cons]
      by_cases hoffset : 2 ^ 32 - 1 < dirent.offset.toInt
      · rw [if_pos hoffset]
        refine iff_of_false (fun h => ?_) (by simp)
        have := h.1.1
        omega
      rw [if_neg hoffset]
      by_cases hroom : budget < direntWords dirent
      · rw [if_pos hroom]
        refine iff_of_false (fun h => ?_) (by simp)
        have := h.2.nonneg
        omega
      rw [if_neg hroom]
      by_cases hino : 2 ^ 32 - 1 < dirent.ino.toNat
      · rw [if_pos hino]
        refine iff_of_false (fun h => ?_) (by simp)
        have := h.1.2
        omega
      rw [if_neg hino, Nat.add_le_add_iff_right, ← ih _ (by omega)]
      exact and_iff_right ⟨by omega, by omega⟩

/-- The error stays clear exactly when every entry is accepted. -/
theorem fill_err_iff (budget : Int) (last : Word) (dirents : List Dirent) :
    (fill budget last dirents).err = vsnfserr .ok ↔
      dirents.length ≤ (fill budget last dirents).count := by
  induction dirents generalizing budget last with
  | nil => simp [fill]
  | cons dirent dirents ih =>
      have hfbig : vsnfserr .fbig ≠ vsnfserr .ok := by decide
      have hsmall : vsnfserr .toosmall ≠ vsnfserr .ok := by decide
      rw [fill, List.length_cons]
      split
      · exact iff_of_false hfbig (by simp)
      split
      · exact iff_of_false hsmall (by simp)
      split
      · exact iff_of_false hfbig (by simp)
      · rw [Nat.add_le_add_iff_right, ← ih]

/-! ### The reply -/

/-- The page part of the reply to READDIR: the handler, then the encoder of its result. -/
def readdirReply (svc : SvcRes) (head : Head) (args : ReaddirArgs) (env : ReaddirEnv) : List Byte :=
  replyPage (vsnfssvcEncodeReaddirres svc (vsnfsdProcReaddir head args env).resp)

/-- The directory is opened. -/
def DirOpened (head : Head) (args : ReaddirArgs) (opening : OpenEnv Unit) : Prop :=
  (vsnfsdOpen head args.fh args.after opening).file = some ()

/-- The error after a failed `vfs_readdir`: its own, unless the filler had one. -/
def closingErr (ret : Int) (err : Word) : Word :=
  if ret < 0 ∧ err = vsnfserr .ok then vsnfserrno ret else err

/-- The word behind the end marker. -/
def eofWord (err : Word) : Word := htonl (if err = vsnfserr .ok then 1 else 0)

theorem eofWord_ne_zero_iff (err : Word) : eofWord err ≠ 0 ↔ err = vsnfserr .ok := by
  rw [eofWord]
  split
  · rename_i hok
    exact iff_of_true (by decide) hok
  · rename_i hok
    exact iff_of_false (by decide) hok

section Reply

variable (svc : SvcRes) {head : Head} {args : ReaddirArgs} {env : ReaddirEnv}

theorem procReaddir_opened (hfile : DirOpened head args env.opening) :
    (vsnfsdProcReaddir head args env).status =
        some (if env.ret < 0 then vsnfserrno env.ret else vsnfserr .ok) ∧
      (vsnfsdProcReaddir head args env).resp =
        { vfsReaddir (readdirStart args.count env.page) env.entries with
          count := ((vfsReaddir (readdirStart args.count env.page) env.entries).buffer / 4 : Nat)
          err := closingErr env.ret (vfsReaddir (readdirStart args.count env.page) env.entries).err } := by
  have hstatus := open_status_of_file hfile
  rw [DirOpened] at hfile
  simp only [vsnfsdProcReaddir, vsnfsdReaddir, hfile, Outcome.call]
  by_cases hret : env.ret < 0
  · have hne := vsnfserrno_ne_zero (Int.ne_of_lt hret)
    simp only [closingErr, hret, if_true, ne_eq, hne, not_false_eq_true, true_and, and_self]
  · simp only [closingErr, hret, hstatus, vsnfserr_ok, ne_eq, not_true_eq_false, false_and, if_false,
      and_self]

/-- **The reply to an opened directory**: the accepted entries and the end marker. -/
theorem readdirReply_opened (hfile : DirOpened head args env.opening) {filled : Filled}
    (hfilled : fill (readdirBudget args.count) (BitVec.allOnes 32) (env.entries.map Prod.fst) = filled) :
    readdirReply svc head args env = listingBytes (env.entries.take filled.count) filled.last ++
      (leBytes 0 ++ leBytes (eofWord (closingErr env.ret filled.err))) := by
  obtain ⟨hholds, herr⟩ := (start_pageHolds args.count env.page (BitVec.allOnes 32)).filled rfl
    env.entries hfilled
  rw [List.nil_append] at hholds
  rw [readdirReply, (procReaddir_opened hfile).2, herr]
  exact (hholds.close _ _).reply args.hcount svc

/-- Without the directory the page is an end marker that depends on the failed open alone. -/
theorem readdirReply_unopened (hfile : ¬ DirOpened head args env.opening) :
    (vsnfsdProcReaddir head args env).status = (vsnfsdOpen head args.fh args.after env.opening).status ∧
      readdirReply svc head args env = leBytes 0 ++ leBytes (eofWord
        ((vsnfsdOpen head args.fh args.after env.opening).status.getD (vsnfserr .ok))) := by
  have hnone : (vsnfsdOpen head args.fh args.after env.opening).file = none := by
    cases hopen : (vsnfsdOpen head args.fh args.after env.opening).file with
    | none => rfl
    | some file => exact absurd hopen hfile
  have hstart := start_pageHolds args.count env.page (BitVec.allOnes 32)
  have hresp : (vsnfsdProcReaddir head args env).resp =
      { readdirStart args.count env.page with
        count := 0
        err := (vsnfsdOpen head args.fh args.after env.opening).status.getD (vsnfserr .ok) } := by
    simp only [vsnfsdProcReaddir, vsnfsdReaddir, hnone]
    cases (vsnfsdOpen head args.fh args.after env.opening).status with
    | none => simp [readdirStart]
    | some status =>
        by_cases hzero : status = 0
        · simp [readdirStart, hzero]
        · simp only [readdirStart, vsnfserr_ok, ne_eq, hzero, not_false_eq_true, and_self, if_true,
            Option.getD_some, Nat.zero_div]
          rfl
  refine ⟨by simp only [vsnfsdProcReaddir, vsnfsdReaddir, hnone], ?_⟩
  rw [readdirReply, hresp]
  exact (hstart.close _ _).reply args.hcount svc

end Reply

/-! ### The end marker -/

/-- What a reply says about an entry: the name cut to its first 255 bytes, the low word of the number
and the type. -/
def Dirent.listed (dirent : Dirent) : List Byte × Word × Word :=
  (dirent.name.take vsnfsMaxnamlen, dirent.ino.setWidth 32, dirent.dType)

def RawDirent.listed (raw : RawDirent) : List Byte × Word × Word := (raw.name, raw.ino, raw.fh.type)

/-- A page that is marked as complete lists the whole directory. -/
def EofTruthful (page : List Byte) (dir : List Dirent) : Prop :=
  ∀ (raws : List RawDirent) (word : Word),
    page = raws.flatMap RawDirent.bytes ++ (leBytes 0 ++ leBytes word) → word ≠ 0 →
      (dir.map Dirent.listed).Sublist (raws.map RawDirent.listed)

/-- What does not depend on the offset word is the same for every call. -/
theorem rawList_map {Field : Type} {ofRaw : RawDirent → Field} {ofCall : FillerCall → Field}
    (h : ∀ call offset, ofRaw (rawOf call offset) = ofCall call) (calls : List FillerCall) (last : Word) :
    (rawList calls last).map ofRaw = calls.map ofCall := by
  induction calls with
  | nil => rfl
  | cons call calls ih =>
      cases calls with
      | nil => rw [rawList, List.map_singleton, List.map_singleton, h]
      | cons next calls => rw [rawList, List.map_cons, ih, h, ← List.map_cons]

theorem rawList_listed (calls : List FillerCall) (last : Word) :
    (rawList calls last).map RawDirent.listed = (calls.map Prod.fst).map Dirent.listed := by
  rw [List.map_map]
  exact rawList_map (fun _ _ => rfl) calls last

/-- `vsnfs_ok` means that the directory was opened and that `vfs_readdir` returned 0. -/
theorem procReaddir_ok_iff (head : Head) (args : ReaddirArgs) (env : ReaddirEnv) :
    (vsnfsdProcReaddir head args env).status = some (vsnfserr .ok) ↔
      DirOpened head args env.opening ∧ env.failure = none := by
  by_cases hfile : DirOpened head args env.opening
  · rw [(procReaddir_opened hfile).1, ReaddirEnv.ret]
    cases env.failure with
    | none => exact iff_of_true rfl ⟨hfile, rfl⟩
    | some failure =>
        refine iff_of_false ?_ (fun h => by cases h.2)
        simp only [failure.hneg, if_true, vsnfserr_ok, Option.some.injEq]
        exact vsnfserrno_ne_zero (Int.ne_of_lt failure.hneg)
  · rw [(readdirReply_unopened ⟨0, [], 0⟩ hfile).1]
    refine iff_of_false (fun hok => ?_) (fun h => hfile h.1)
    cases open_exit head args.fh args.after env.opening with
    | noMemory _ hstatus _ => cases hstatus.symm.trans hok
    | stopped _ _ _ hstatus _ => cases hstatus.symm.trans hok
    | noEntry _ hstatus _ => cases hstatus.symm.trans hok
    | refused _ hstatus _ => cases hstatus.symm.trans hok
    | opened file _ _ hopen => exact hfile hopen

/-- The reply with `vsnfs_ok`: it is marked as complete exactly when all that was passed fits, and then
it lists all of that. -/
theorem readdirReply_of_ok (svc : SvcRes) {head : Head} {args : ReaddirArgs} {env : ReaddirEnv}
    (hok : (vsnfsdProcReaddir head args env).status = some (vsnfserr .ok)) :
    ∃ (raws : List RawDirent) (word : Word), readdirReply svc head args env =
        raws.flatMap RawDirent.bytes ++ (leBytes 0 ++ leBytes word) ∧
      (word ≠ 0 ↔ Fits (readdirBudget args.count) (env.entries.map Prod.fst)) ∧
      (Fits (readdirBudget args.count) (env.entries.map Prod.fst) →
        raws.map RawDirent.listed = (env.entries.map Prod.fst).map Dirent.listed) := by
  obtain ⟨hfile, hfailure⟩ := (procReaddir_ok_iff head args env).mp hok
  obtain ⟨filled, hfilled⟩ :
      ∃ filled, fill (readdirBudget args.count) (BitVec.allOnes 32) (env.entries.map Prod.fst) = filled :=
    ⟨_, rfl⟩
  have hret : env.ret = 0 := by rw [ReaddirEnv.ret, hfailure]
  have hclosing : closingErr env.ret filled.err = filled.err := by
    rw [closingErr, hret, if_neg (fun h => absurd h.1 (by decide))]
  have hcount := fits_iff_le_count (readdirBudget args.count) (readdirBudget_nonneg _)
    (BitVec.allOnes 32) (env.entries.map Prod.fst) []
  rw [List.append_nil] at hcount
  refine ⟨rawList (env.entries.take filled.count) filled.last, _, readdirReply_opened svc hfile hfilled,
    ?_, ?_⟩
  · rw [hclosing, eofWord_ne_zero_iff, hcount, ← fill_err_iff, hfilled]
  · intro hfits
    have hall := hcount.mp hfits
    rw [hfilled, List.length_map] at hall
    rw [List.take_of_length_le hall, rawList_listed]

/-- **The flag tells whether the filler refused an entry, not whether the directory ended.** For every
directory, and every part of it from its start that one call of `vfs_readdir` passes to the filler, a
reply with `vsnfs_ok` that is marked as complete has all of the directory exactly when that part is all
of it, or one of its entries is refused (and the reply is not marked). -/
theorem eof_truthful_iff (svc : SvcRes) (head : Head) (args : ReaddirArgs) (env : ReaddirEnv)
    (dir : List Dirent) (hpassed : env.entries.map Prod.fst <+: dir)
    (hok : (vsnfsdProcReaddir head args env).status = some (vsnfserr .ok)) :
    EofTruthful (readdirReply svc head args env) dir ↔
      env.entries.map Prod.fst = dir ∨
        ¬ Fits (readdirBudget args.count) (env.entries.map Prod.fst) := by
  obtain ⟨listed, mark, hreply, hmarked, hlists⟩ := readdirReply_of_ok svc hok
  by_cases hfits : Fits (readdirBudget args.count) (env.entries.map Prod.fst)
  · constructor
    · intro htruthful
      have hsub := htruthful listed mark hreply (hmarked.mpr hfits)
      rw [hlists hfits] at hsub
      refine Or.inl (hpassed.eq_of_length_le ?_)
      have hle := hsub.length_le
      rwa [List.length_map, List.length_map Dirent.listed] at hle
    · rintro (hwhole | hnot)
      · intro raws word hpage _
        obtain ⟨rfl, -⟩ := listing_unique (hreply.symm.trans hpage)
        rw [hlists hfits, hwhole]
      · exact absurd hfits hnot
  · refine iff_of_true ?_ (Or.inr hfits)
    intro raws word hpage hword
    obtain ⟨-, hlast⟩ := listing_unique (hreply.symm.trans hpage)
    rw [← leBytes_injective hlast] at hword
    exact absurd (hmarked.mp hword) hfits

/-- READDIR of an open directory in which `vfs_readdir` passes these entries and returns 0. -/
def passing (entries : List FillerCall) : ReaddirEnv :=
  { opening := ⟨true, [], fun _ => .ok ()⟩, entries := entries, failure := none, page := [] }

theorem passing_opened (entries : List FillerCall) :
    DirOpened (some [firstRoot]) rootReaddir (passing entries).opening := rootReaddir_opens

theorem passing_ok (entries : List FillerCall) :
    (vsnfsdProcReaddir (some [firstRoot]) rootReaddir (passing entries)).status = some (vsnfserr .ok) :=
  (procReaddir_ok_iff _ _ _).mpr ⟨passing_opened entries, rfl⟩

/-- All of a directory of two entries is passed at once. -/
theorem two_entries_eof_truthful :
    EofTruthful (readdirReply ⟨0, [], 0⟩ (some [firstRoot]) rootReaddir (passing twoEntries))
      (twoEntries.map Prod.fst) :=
  (eof_truthful_iff _ _ _ (passing twoEntries) _ (List.prefix_refl _) (passing_ok twoEntries)).mpr
    (Or.inl rfl)

/-- The first of two entries is passed, the second is left for a later call; the reply has one entry and
is marked as complete. -/
theorem split_directory_eof_untruthful :
    (twoEntries.take 1).map Prod.fst <+: twoEntries.map Prod.fst ∧ twoEntries.take 1 ≠ [] ∧
      (vsnfsdProcReaddir (some [firstRoot]) rootReaddir (passing (twoEntries.take 1))).status =
        some (vsnfserr .ok) ∧
      ¬ EofTruthful (readdirReply ⟨0, [], 0⟩ (some [firstRoot]) rootReaddir (passing (twoEntries.take 1)))
        (twoEntries.map Prod.fst) := by
  refine ⟨⟨(twoEntries.drop 1).map Prod.fst, rfl⟩, by simp [twoEntries], passing_ok _, fun htruthful => ?_⟩
  have hreply := readdirReply_opened ⟨0, [], 0⟩ (passing_opened (twoEntries.take 1)) rfl
  have hsub := (htruthful _ _ hreply (by decide)).length_le
  exact absurd hsub (by decide)

/-! ### What the page says about the server's memory -/

/-- Behind the terminator the handle keeps what the structure held. -/
theorem print_data_eq {ino : BitVec 64} (hino : ino.toNat ≤ 2 ^ 32 - 1) (stack : VsnfsFh) :
    (stack.print ino).data = ((Nat.toDigits 10 ino.toNat).map charByte).take 7 ++
      0 :: stack.data.drop (min 7 (Nat.toDigits 10 ino.toNat).length + 1) := by
  change snprintfInto stack.data vsnfsFhsize (decimalText ino.toInt) = _
  rw [decimalText_of_nonneg (by omega), snprintfInto, overwrite_zero, List.append_assoc,
    List.length_append, List.length_take, List.length_map, List.length_singleton]
  rfl

/-- Seven digits fill the field. -/
theorem print_data_of_million_le {ino : BitVec 64} (hino : ino.toNat ≤ 2 ^ 32 - 1)
    (hlong : 10 ^ 6 ≤ ino.toNat) (stack stack' : VsnfsFh) :
    (stack.print ino).data = (stack'.print ino).data := by
  have hdigits := @Nat.length_toDigits_le_iff 10 ino.toNat 6 (by decide) (by decide)
  have hseven : 7 ≤ (Nat.toDigits 10 ino.toNat).length := by omega
  have hnothing : ∀ stack : VsnfsFh,
      stack.data.drop (min 7 (Nat.toDigits 10 ino.toNat).length + 1) = [] := by
    intro stack
    rw [Nat.min_eq_left hseven]
    exact List.drop_eq_nil_of_le stack.hdata.le
  rw [print_data_eq hino, print_data_eq hino, hnothing, hnothing]

/-- A frame full of ones. -/
def onesFh : VsnfsFh := ⟨List.replicate vsnfsFhsize 1, rfl, 0⟩

/-- Six digits leave the last byte of the field. -/
theorem million_le_of_print_data {ino : BitVec 64} (hino : ino.toNat ≤ 2 ^ 32 - 1)
    (h : (zeroFh.print ino).data = (onesFh.print ino).data) : 10 ^ 6 ≤ ino.toNat := by
  by_contra hshort
  have hdigits := @Nat.length_toDigits_le_iff 10 ino.toNat 6 (by decide) (by decide)
  have hsix : (Nat.toDigits 10 ino.toNat).length ≤ 6 := hdigits.mpr (by omega)
  rw [print_data_eq hino, print_data_eq hino, Nat.min_eq_right (by omega)] at h
  have hrest := List.cons_inj_right 0 |>.mp (List.append_cancel_left h)
  simp only [zeroFh, onesFh, List.drop_replicate, vsnfsFhsize] at hrest
  obtain ⟨rest, hcount⟩ : ∃ rest, 8 - ((Nat.toDigits 10 ino.toNat).length + 1) = rest + 1 :=
    ⟨6 - (Nat.toDigits 10 ino.toNat).length, by omega⟩
  rw [hcount, List.replicate_succ, List.replicate_succ] at hrest
  exact absurd (List.cons.inj hrest).1 (by decide)

/-- The request, the directory and the kernel's answers of a run; the frames of the filler and the page
are left open. -/
def ReaddirEnv.IsRun (env : ReaddirEnv) (opening : OpenEnv Unit) (dirents : List Dirent)
    (failure : Option Failure) : Prop :=
  env.opening = opening ∧ env.entries.map Prod.fst = dirents ∧ env.failure = failure

/-- Any two runs on the same directory have the same reply. -/
def RevealsNothing (svc : SvcRes) (head : Head) (args : ReaddirArgs) (opening : OpenEnv Unit)
    (dirents : List Dirent) (failure : Option Failure) : Prop :=
  ∀ env env' : ReaddirEnv, env.IsRun opening dirents failure → env'.IsRun opening dirents failure →
    readdirReply svc head args env = readdirReply svc head args env'

/-- Every entry of the reply has a number of seven digits or more. -/
def LongNumbers (budget : Int) (dirents : List Dirent) : Prop :=
  ∀ before dirent, before ++ [dirent] <+: dirents → Fits budget (before ++ [dirent]) →
    10 ^ 6 ≤ dirent.ino.toNat

theorem rawOf_congr {call call' : FillerCall} (hsame : call.1 = call'.1)
    (hino : call.1.ino.toNat ≤ 2 ^ 32 - 1) (hlong : 10 ^ 6 ≤ call.1.ino.toNat) (offset : Word) :
    rawOf call offset = rawOf call' offset := by
  obtain ⟨dirent, stack⟩ := call
  obtain ⟨dirent', stack'⟩ := call'
  cases hsame
  have hfh : entryFh stack dirent.ino dirent.dType = entryFh stack' dirent.ino dirent.dType := by
    simp only [entryFh, print_data_of_million_le hino hlong stack stack']
  simp only [rawOf, hfh]

/-- Two runs of the filler on the same directory agree entry by entry. -/
theorem sameDirents_iff (calls calls' : List FillerCall) :
    calls.map Prod.fst = calls'.map Prod.fst ↔
      List.Forall₂ (fun call call' => call.1 = call'.1) calls calls' := by
  rw [← List.forall₂_eq_eq_eq, List.forall₂_map_left_iff, List.forall₂_map_right_iff]

theorem rawList_congr {calls calls' : List FillerCall} (hsame : calls.map Prod.fst = calls'.map Prod.fst)
    (hinos : ∀ call ∈ calls, call.1.ino.toNat ≤ 2 ^ 32 - 1 ∧ 10 ^ 6 ≤ call.1.ino.toNat) (last : Word) :
    rawList calls last = rawList calls' last := by
  rw [sameDirents_iff] at hsame
  induction hsame with
  | nil => rfl
  | @cons call _ _ _ hfirst hrest ih =>
      obtain ⟨hino, hlong⟩ := hinos call List.mem_cons_self
      have hnext := ih (fun other hother => hinos other (List.mem_cons_of_mem call hother))
      cases hrest with
      | nil => rw [rawList, rawList, rawOf_congr hfirst hino hlong]
      | cons hsecond _ => rw [rawList, rawList, rawOf_congr hfirst hino hlong, hnext, hsecond]

/-- The entries of the reply are those in front of which, and with which, the listing fits. -/
theorem mem_take_count_iff {budget : Int} (hbudget : 0 ≤ budget) (last : Word) (dirents : List Dirent)
    (dirent : Dirent) :
    dirent ∈ dirents.take (fill budget last dirents).count ↔
      ∃ before, before ++ [dirent] <+: dirents ∧ Fits budget (before ++ [dirent]) := by
  have hfits : ∀ before, before ++ [dirent] <+: dirents →
      (Fits budget (before ++ [dirent]) ↔
        (before ++ [dirent]).length ≤ (fill budget last dirents).count) := by
    rintro before ⟨rest, rfl⟩
    exact fits_iff_le_count budget hbudget last _ rest
  constructor
  · intro hmem
    obtain ⟨before, behind, hsplit⟩ := List.append_of_mem hmem
    have htaken : before ++ [dirent] <+: dirents.take (fill budget last dirents).count :=
      ⟨behind, by rw [hsplit, List.append_assoc, List.singleton_append]⟩
    obtain ⟨hfront, hlength⟩ := List.prefix_take_iff.mp htaken
    exact ⟨before, hfront, (hfits before hfront).mpr hlength⟩
  · rintro ⟨before, hfront, hfit⟩
    have htaken := List.prefix_take_iff.mpr ⟨hfront, (hfits before hfront).mp hfit⟩
    exact htaken.subset (by simp)

section Reveals

variable {svc : SvcRes} {head : Head} {args : ReaddirArgs} {opening : OpenEnv Unit} {dirents : List Dirent}
  {failure : Option Failure}

/-- The same directory with zeros and with ones in every frame: equal replies have equal handles. -/
theorem longNumbers_of_revealsNothing (hsame : RevealsNothing svc head args opening dirents failure)
    (hfile : DirOpened head args opening) : LongNumbers (readdirBudget args.count) dirents := by
  intro before dirent hfront hfits
  have hrun : ∀ stack : VsnfsFh, ReaddirEnv.IsRun
      ⟨opening, dirents.map (fun dirent => (dirent, stack)), failure, []⟩ opening dirents failure := by
    intro stack
    refine ⟨rfl, ?_, rfl⟩
    rw [List.map_map]
    exact List.map_id dirents
  have hmem := (mem_take_count_iff (readdirBudget_nonneg args.count) (BitVec.allOnes 32) dirents
    dirent).mpr ⟨before, hfront, hfits⟩
  have hreply := hsame _ _ (hrun zeroFh) (hrun onesFh)
  rw [@readdirReply_opened svc head args ⟨opening, _, failure, []⟩ hfile _
      (congrArg (fill _ _) (hrun zeroFh).2.1),
    @readdirReply_opened svc head args ⟨opening, _, failure, []⟩ hfile _
      (congrArg (fill _ _) (hrun onesFh).2.1)] at hreply
  have hfhs := congrArg (List.map RawDirent.fh) (listing_unique hreply).1
  rw [rawList_map (fun _ _ => rfl), rawList_map (fun _ _ => rfl), ← List.map_take, ← List.map_take,
    List.map_map, List.map_map, List.map_inj_left] at hfhs
  have hdata := congrArg VsnfsFh.data (hfhs dirent hmem)
  exact million_le_of_print_data (hfits.1 dirent (by simp)).2 hdata

theorem revealsNothing_of_longNumbers
    (hlong : DirOpened head args opening → LongNumbers (readdirBudget args.count) dirents) :
    RevealsNothing svc head args opening dirents failure := by
  intro env env' hrun hrun'
  obtain ⟨rfl, rfl, rfl⟩ := hrun
  obtain ⟨hopening, hentries, hfailure⟩ := hrun'
  by_cases hfile : DirOpened head args env.opening
  · have hfile' : DirOpened head args env'.opening := by rwa [hopening]
    have hret : env'.ret = env.ret := by rw [ReaddirEnv.ret, ReaddirEnv.ret, hfailure]
    rw [readdirReply_opened svc hfile rfl, readdirReply_opened svc hfile' rfl, hret, hentries,
      listingBytes, listingBytes, rawList_congr]
    · rw [List.map_take, List.map_take, hentries]
    · intro call hcall
      have hmem := List.mem_map_of_mem (f := Prod.fst) hcall
      rw [List.map_take] at hmem
      obtain ⟨before, hfront, hfits⟩ :=
        (mem_take_count_iff (readdirBudget_nonneg args.count) _ _ _).mp hmem
      exact ⟨(hfits.1 call.1 (by simp)).2, hlong hfile before call.1 hfront hfits⟩
  · have hfile' : ¬ DirOpened head args env'.opening := by rwa [hopening]
    rw [(readdirReply_unopened svc hfile).2, (readdirReply_unopened svc hfile').2, hopening]

end Reveals

/-- **The reply shows what the stack held behind a short number.** For every directory, two runs that
differ only in the frames of the filler and in the page have the same reply exactly when the directory
could not be opened, or every entry of the reply has a number of seven digits or more. -/
theorem readdir_reply_reveals_nothing_iff (svc : SvcRes) (head : Head) (args : ReaddirArgs)
    (opening : OpenEnv Unit) (dirents : List Dirent) (failure : Option Failure) :
    RevealsNothing svc head args opening dirents failure ↔
      (DirOpened head args opening → LongNumbers (readdirBudget args.count) dirents) :=
  ⟨longNumbers_of_revealsNothing, revealsNothing_of_longNumbers⟩

/-- A directory with the number 12 in it: the replies for a frame of zeros and a frame of ones differ. -/
theorem short_number_reveals_stack :
    ¬ RevealsNothing ⟨0, [], 0⟩ (some [firstRoot]) rootReaddir (passing []).opening
      [⟨[0x61], 0, 12, 8⟩] none := by
  intro hsame
  have hreply := hsame (passing [(⟨[0x61], 0, 12, 8⟩, zeroFh)]) (passing [(⟨[0x61], 0, 12, 8⟩, onesFh)])
    ⟨rfl, rfl, rfl⟩ ⟨rfl, rfl, rfl⟩
  rw [readdirReply_opened _ (passing_opened _) rfl, readdirReply_opened _ (passing_opened _) rfl] at hreply
  exact absurd hreply (by decide)

end Vsnfs
