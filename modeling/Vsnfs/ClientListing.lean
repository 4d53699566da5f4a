import Vsnfs.ClientWalk
import Vsnfs.EntryHandles
import Vsnfs.ReaddirResume

/-! Reading a directory and looking up what was read. The two requests share only the handle: READDIR opens
the path that the server has stored for it and hands over what the file system passes for that path, LOOKUP
puts a name behind the path. For a directory that a client has reached, the entries it is given are names
that it can look up, with the numbers and the types that it then finds. -/

namespace Vsnfs

open Base

/-! ### The tree -/

/-- The entry is listed as this one: its number, and its type or one that says nothing. -/
structure ListedAs (inode : Inode) (dirent : Dirent) : Prop where
  hino : dirent.ino = inode.ino
  hreg : dirent.dType = dtReg → inode.kind = .reg
  hdir : dirent.dType = dtDir → inode.kind = .dir

/-- A tree with the entries that its file system passes when a directory is read: the children, each under its
name. -/
structure ListedTree (Object : Type) extends NamedTree Object where
  entries : Object → List Dirent
  hentries : ∀ object, ∀ dirent ∈ entries object, dirent.name.length ≤ vsnfsMaxnamlen ∧
    ∃ entry, child object dirent.name = some entry ∧ ListedAs (inode entry) dirent
  hcomplete : ∀ object name entry, child object name = some entry →
    ∃ dirent ∈ entries object, dirent.name = name

section Listing

variable {Object : Type} (tree : ListedTree Object)

/-! ### The client and the server -/

/-- What mounts and lookups over the tree lead a client to. -/
inductive Reached : WalkState → Object → Prop
  | mount (before : List Event) (hbefore : Along step (Orderly tree.toFileTree) Server.load before)
      (hup : (runFrom step Server.load before).down = false) (arrival : Arrival) (path : PathName)
      (hfine : MountFine tree.toNamedTree (runFrom step Server.load before) arrival path) (root : Object)
      (hroot : tree.denotes (withSlash path.bytes) = some root) (hdir : (tree.inode root).kind = .dir)
      (resp : VsnfsFh) (after : List Byte) (alloc : ClientInode) (halloc : alloc.iPrivate = none)
      (mounted : WalkState)
      (hmounted : mountRoot arrival (runFrom step Server.load before) path resp after alloc = some mounted) :
      Reached mounted root
  | walk (state next : WalkState) (object entry : Object) (h : Reached state object) (walk : WalkStep)
      (hfine : LookupFine tree.toNamedTree state walk)
      (henter : tree.toNamedTree.enter object walk.name = some entry) (hnext : walkStep state walk = some next) :
      Reached next entry

/-- READDIR of a handle with the count of a page. -/
def pageOf (fh : VsnfsFh) (after : List Byte) : ReaddirArgs := ⟨fh, after, pageSize, Nat.le_refl pageSize⟩

/-- What reading a directory needs: memory for the path, a file system that opens the paths of directories,
and one call of `vfs_readdir` that passes the entries of the directory which was opened. -/
structure ListFine (head : Head) (args : ReaddirArgs) (env : ReaddirEnv) : Prop where
  memory : env.opening.pathAlloc = true
  opens : ∀ text object, tree.denotes text = some object → (tree.inode object).kind = .dir →
    env.opening.filpOpen text = .ok ()
  finishes : env.failure = none
  passes : ∀ text errno, .filpOpen text errno ∈ (vsnfsdOpen head args.fh args.after env.opening).calls →
    ∀ object, tree.denotes text = some object → env.entries.map Prod.fst = tree.entries object

/-- An entry that was handed over can be looked up: it is one of the directory, and the lookup of its name ends
with an inode of its number and of its type. -/
structure CanBeFound (state : WalkState) (object : Object) (call : FilldirCall) : Prop where
  child : ∃ entry, tree.child object call.name = some entry ∧ call.ino = (tree.inode entry).ino
  found : ∀ walk : WalkStep, walk.name.bytes = call.name → LookupFine tree.toNamedTree state walk →
    call.dType = dtReg ∨ call.dType = dtDir → ∃ final, walkStep state walk = some final ∧
      final.dir.iIno = call.ino ∧ (call.dType = dtReg → final.dir.iMode = regMode) ∧
      (call.dType = dtDir → final.dir.iMode = dirMode)

/-- What the caller of `vsnfs_readdir` is handed: entries from the start of the directory, each of which can be
looked up, and all of them when the buffer has room. No name outside the listing is found in the directory. -/
structure ListedTruly (state : WalkState) (object : Object) (buffer : CallerBuffer) (listed : List FilldirCall) :
    Prop where
  front : listed <+: listingOf (tree.entries object)
  found : ∀ call ∈ listed, CanBeFound tree state object call
  whole : buffer.Takes [] (listingOf (tree.entries object)) → listed = listingOf (tree.entries object)
  only : ∀ (walk : WalkStep) (final : WalkState), walk.name.bytes ≠ [] → LookupFine tree.toNamedTree state walk →
    SmallErrnos walk.arrival.kernel.lookup.pathLookup → walkStep state walk = some final →
      ∃ call ∈ listingOf (tree.entries object), call.name = walk.name.bytes

end Listing

section Listing

variable {Object : Type} {tree : ListedTree Object}

/-- What a client reaches keeps the invariant of a walk. -/
theorem Reached.at (hdistinct : tree.toFileTree.DistinctNumbers) {state : WalkState} {object : Object}
    (h : Reached tree state object) : AtObject tree.toNamedTree state object := by
  induction h with
  | mount before hbefore hup arrival path hfine root hroot hdir resp after alloc halloc mounted hmounted =>
      have hrun : TrueServer tree.toFileTree (runFrom step Server.load before) ∧
        DirectoriesOpen tree.hierarchy (runFrom step Server.load before) := run_trueServer hbefore
      obtain ⟨hserver, hslashes⟩ := hrun
      obtain ⟨other, hother, hat⟩ :=
        mountRoot_at hdistinct hserver hslashes hup hfine hroot hdir resp after halloc
      obtain rfl : other = mounted := Option.some.inj (hother.symm.trans hmounted)
      exact hat
  | walk state next object entry _ walk hfine henter hnext ih =>
      obtain ⟨other, hother, hat⟩ := walkStep_enters hdistinct state object walk entry ih hfine henter
      obtain rfl : other = next := Option.some.inj (hother.symm.trans hnext)
      exact hat

/-! ### The directory that is opened -/

/-- The open behind READDIR of a directory that was reached: a path of it is opened. -/
theorem AtObject.opens {state : WalkState} {object : Object} (hat : AtObject tree.toNamedTree state object)
    (hdistinct : tree.toFileTree.DistinctNumbers) (hdir : (tree.inode object).kind = .dir) {others : List Event}
    (hothers : OthersFine tree.toNamedTree state.server others) {fh : VsnfsFh} {after : List Byte}
    (hreads : fh.ino after = (tree.inode object).ino) {env : ReaddirEnv}
    (hfine : ListFine tree (runFrom step state.server others).head (pageOf fh after) env) :
    DirOpened (runFrom step state.server others).head (pageOf fh after) env.opening ∧
      env.entries.map Prod.fst = tree.entries object := by
  obtain ⟨node, hnode, hino⟩ := hat.entry
  obtain ⟨hserver, -, hmem⟩ := hothers.keeps hat.server hat.slashes hnode
  have hfound := found_of_mem hserver.unique hmem
  rw [hino] at hfound
  obtain ⟨-, -, hdenotes⟩ := hserver.found_denotes hdistinct hfound
  have hne : fh.ino after ≠ 0 := by
    intro hzero
    have hpositive := tree.hpositive object
    rw [← hreads, hzero] at hpositive
    exact absurd hpositive (by decide)
  have hresolved := (fhToPath_resolved_iff (runFrom step state.server others).head fh after
    (Buffer.alloc vsnfsMaxpathlen env.opening.junk) vsnfsMaxpathlen _).mpr
      ⟨hne, node, by rw [hreads]; exact hfound, rfl⟩
  have hcstr := cstr_put_strncpyBytes node env.opening.junk (hserver.good node hmem).short
  have hopen : vsnfsdOpen (runFrom step state.server others).head fh after env.opening =
      ⟨some (vsnfserr .ok), some (), [.kmalloc true, .filpOpen node.path 0],
        some ((Buffer.alloc vsnfsMaxpathlen env.opening.junk).put 0
          (strncpyBytes node.path vsnfsMaxpathlen))⟩ := by
    simp only [vsnfsdOpen, hfine.memory, hresolved, hcstr, hfine.opens node.path object hdenotes hdir,
      Bool.true_eq_false, if_false, ne_eq, not_true_eq_false]
  have hcalled : ExtCall.filpOpen node.path 0 ∈
      (vsnfsdOpen (runFrom step state.server others).head fh after env.opening).calls := by
    rw [hopen]
    exact List.mem_cons_of_mem _ List.mem_cons_self
  exact ⟨congrArg Opened.file hopen, hfine.passes node.path 0 hcalled object hdenotes⟩

/-- An opened directory is answered. -/
theorem answerFor_opened (rephdr : Nat) (svc : SvcRes) (hsvc : svc.head.length = 4 * rephdr) {head : Head}
    {fh : VsnfsFh} {after : List Byte} {env : ReaddirEnv} (hopened : DirOpened head (pageOf fh after) env.opening)
    (hfailure : env.failure = none) (stale : List Byte) :
    ∃ answer, AnswerFor (env.entries.map Prod.fst) answer ∧
      readdirExchange rephdr (BitVec.ofNat 32 pageSize) svc head (pageOf fh after) env stale = some answer := by
  have hserved := readdirExchange_served rephdr (BitVec.ofNat 32 pageSize) svc head (pageOf fh after) env stale _
    hsvc ((procReaddir_ok_iff head (pageOf fh after) env).mpr ⟨hopened, hfailure⟩) rfl (replyPage_length_le _ _)
  exact ⟨_, ⟨rephdr, svc, head, pageOf fh after, env, stale, hsvc, rfl, hopened, hfailure, rfl, hserved⟩, hserved⟩

/-! ### What the caller gets -/

/-- Each call of `filldir` for a listing is of one of the entries, with its name cut at the longest, its number
and its type. -/
theorem mem_expectedCalls {calls : List FillerCall} {last : Word} {listed : FilldirCall}
    (hmem : listed ∈ expectedCalls calls last) :
    ∃ call ∈ calls, listed.name = call.1.name.take vsnfsMaxnamlen ∧ listed.ino = call.1.ino ∧
      listed.dType = call.1.dType := by
  induction calls with
  | nil => cases hmem
  | cons call calls ih =>
      cases calls with
      | nil =>
          obtain rfl := List.mem_singleton.mp hmem
          exact ⟨call, List.mem_cons_self, rfl, rfl, rfl⟩
      | cons next calls =>
          obtain rfl | hrest := List.mem_cons.mp hmem
          · exact ⟨call, List.mem_cons_self, rfl, rfl, rfl⟩
          · obtain ⟨other, hother, hsame⟩ := ih hrest
            exact ⟨other, List.mem_cons_of_mem call hother, hsame⟩

/-- Every entry has a call. -/
theorem expectedCalls_mem {calls : List FillerCall} (last : Word) {call : FillerCall} (hmem : call ∈ calls) :
    ∃ listed ∈ expectedCalls calls last, listed.name = call.1.name.take vsnfsMaxnamlen := by
  induction calls with
  | nil => cases hmem
  | cons first calls ih =>
      cases calls with
      | nil =>
          obtain rfl := List.mem_singleton.mp hmem
          exact ⟨_, List.mem_cons_self, rfl⟩
      | cons next calls =>
          obtain rfl | hrest := List.mem_cons.mp hmem
          · exact ⟨_, List.mem_cons_self, rfl⟩
          · obtain ⟨listed, hlisted, hname⟩ := ih hrest
            exact ⟨listed, List.mem_cons_of_mem _ hlisted, hname⟩

/-- Whatever buffer the caller has, it gets entries from the start of the listing. -/
theorem readdirAgain_prefix {dirents : List Dirent} (hfits : Fits (readdirBudget pageSize) dirents) {rounds : Nat}
    (hrounds : dirents.length < rounds) {state : ReaddirState (List FilldirCall)} (hpos : state.fPos = 0)
    (call : ReaddirCall) (hanswer : AnswerFor dirents call.answer) :
    (readdirAgain rounds state call).2.dirents <+: listingOf dirents := by
  obtain ⟨raws, rest, hpage, hraws⟩ := hanswer.page hfits
  have hlength : raws.length = dirents.length := by
    rw [← listingOf_length, ← hraws, List.length_map]
  by_cases hnil : raws = []
  · cases (readdirAgain_exit hfits hrounds hpos hanswer).2 with
    | empty _ hdirents => exact hdirents ▸ List.nil_prefix
    | whole _ _ hdirents => exact hdirents ▸ List.prefix_refl _
    | part hnot =>
        rw [← hraws, hnil] at hnot
        exact absurd trivial hnot
  · rw [readdirAgain, hpage, readdir_of_loop call.buffer.filldir rounds _
      { state with entry := call.entry, dirents := [] } hpos rfl (Int.le_refl 0)]
    obtain ⟨res, final, hloop, hfilling⟩ := doFilldir_filling call.buffer raws hnil (htonl 1) (by decide)
      rest rounds (by omega) (ReaddirState.onPage _ _) rfl
    rw [hloop, ← hraws]
    change final.dirents <+: raws.map RawDirent.call
    cases hfilling with
    | whole _ hdirents =>
        rw [hdirents]
        exact List.prefix_refl _
    | part before refused hsplit _ _ hdirents =>
        rw [hdirents]
        exact (List.prefix_append before [refused]).trans hsplit

/-! ### What the client can look up -/

/-- A lookup that returns an inode has read a reply with success. -/
theorem procLookup_of_inode {cache cache' : InodeCache} {call : LookupCall} {dirFh : VsnfsFh} {fetched : Bool}
    {inode : ClientInode} (hdir : call.dir.iPrivate = some dirFh)
    (hlookup : vsnfsLookup cache call = some ⟨fetched, .ok (some inode), cache'⟩) :
    ∃ fh, vsnfsProcLookup call.rpc dirFh call.name call.newfh = some (0, fh) := by
  rw [vsnfsLookup] at hlookup
  split at hlookup
  · cases hlookup
  simp only [vsnfsDoLookup, hdir] at hlookup
  by_cases halloc : call.argpAlloc = false
  · simp only [halloc, if_true] at hlookup
    rw [if_neg (by decide), if_pos (by decide)] at hlookup
    cases hlookup
  simp only [if_neg halloc] at hlookup
  cases hproc : vsnfsProcLookup call.rpc dirFh call.name call.newfh with
  | none =>
      simp only [hproc] at hlookup
      cases hlookup
  | some answer =>
      obtain ⟨ret, fh⟩ := answer
      by_cases hret : ret = 0
      · exact ⟨fh, by rw [hret]⟩
      · simp only [hproc, if_neg hret] at hlookup
        rw [if_neg (by decide), if_pos (by decide)] at hlookup
        cases hlookup

/-- A lookup over the wire that returns an inode was answered with `vsnfs_ok`. -/
theorem walkStep_ok {state final : WalkState} {walk : WalkStep} {fh : VsnfsFh}
    (hprivate : state.dir.iPrivate = some fh)
    (harrives : Arrives walk.arrival.kernel.lookup.pathLookup ((ClientArgs.lookupargs fh walk.name).message 0)
      walk.arrival) (hup : (runFrom step state.server walk.others).down = false)
    (hsmall : SmallErrnos walk.arrival.kernel.lookup.pathLookup) (hfinal : walkStep state walk = some final) :
    (vsnfsdProcLookup (runFrom step state.server walk.others).head ⟨fh, walk.arrival.after, walk.name⟩ zeroFh
      walk.arrival.kernel.lookup).status = some (vsnfserr .ok) := by
  simp only [walkStep, hprivate] at hfinal
  rw [serveCall_message harrives.hmem hup] at hfinal
  simp only [resultsOf_eq harrives.hroom] at hfinal
  cases hstatus : (serve (runFrom step state.server walk.others).head
      (((ClientArgs.lookupargs fh walk.name).received walk.arrival.after).event walk.arrival.kernel)).status with
  | none =>
      simp only [hstatus, Option.map_none] at hfinal
      cases hfinal
  | some status =>
      have htruly : ReadTruly status := by
        refine serve_readTruly (fun pathLookup hmem => ?_) hstatus
        cases hmem
        exact hsmall
      have hstub : StubReturns (runFrom step state.server walk.others) walk.arrival 0 _
        (.lookupargs fh walk.name) := stubReturns_of_status hstatus htruly
      obtain ⟨answer, hanswer, hrelayed⟩ := hstub walk.newfh
      simp only [hstatus, Option.map_some] at hfinal
      split at hfinal
      · rename_i fetched inode cache hlookup
        obtain ⟨other, hother⟩ := procLookup_of_inode hprivate hlookup
        obtain rfl : (0, other) = answer := Option.some.inj (hother.symm.trans hanswer)
        exact hrelayed.zero.mp rfl
      · cases hfinal

/-- What a client finds in a directory that it has reached is a child of the directory. -/
theorem AtObject.child_of_found {state final : WalkState} {object : Object}
    (hat : AtObject tree.toNamedTree state object) (hdistinct : tree.toFileTree.DistinctNumbers)
    (hdir : (tree.inode object).kind = .dir) {walk : WalkStep} (hfine : LookupFine tree.toNamedTree state walk)
    (hne : walk.name.bytes ≠ []) (hsmall : SmallErrnos walk.arrival.kernel.lookup.pathLookup)
    (hfinal : walkStep state walk = some final) : ∃ entry, tree.child object walk.name.bytes = some entry := by
  obtain ⟨⟨-, fh, hprivate, hreads, -⟩, -⟩ := hat.inode
  obtain ⟨node, hnode, hino⟩ := hat.entry
  obtain ⟨hserver, hslashes, hmem⟩ := hfine.others.keeps hat.server hat.slashes hnode
  have hok := walkStep_ok hprivate (hfine.arrives fh hprivate) hfine.others.2 hsmall hfinal
  have hfound := found_of_mem hserver.unique hmem
  rw [hino] at hfound
  obtain ⟨-, -, hdenotes⟩ := hserver.found_denotes hdistinct hfound
  obtain ⟨nodes, hhead, hfind⟩ := Option.bind_eq_some_iff.mp hfound
  rw [hhead] at hok
  rw [← hreads walk.arrival.after] at hfind
  obtain ⟨inode, hanswer, -⟩ := lookup_found_of_ok hfind hok
  have hopen : OpenEnded node.path := hslashes node hmem object ⟨hdenotes, hdir⟩
  have hslash : slash ∉ walk.name.bytes := fun hbyte => (walk.name.hclean slash hbyte).2 rfl
  have hchild := tree.hchild node.path walk.name.bytes object hdenotes hdir hopen hne hslash
  obtain ⟨entry, hentry, -⟩ := FileTree.Answers.denotes_of_found hfine.answers hanswer
  exact ⟨entry, hchild.symm.trans hentry⟩

/-! ### The listing -/

/-- An entry of the directory that was handed over can be looked up. -/
theorem AtObject.canBeFound {state : WalkState} {object : Object} (hat : AtObject tree.toNamedTree state object)
    (hdistinct : tree.toFileTree.DistinctNumbers) (hdir : (tree.inode object).kind = .dir) {call : FilldirCall}
    (hmem : call ∈ listingOf (tree.entries object)) : CanBeFound tree state object call := by
  obtain ⟨⟨dirent, stack⟩, hcalled, hname, hino, htype⟩ := mem_expectedCalls hmem
  obtain ⟨dirent, hdirent, heq⟩ := List.mem_map.mp hcalled
  cases heq
  obtain ⟨hlength, entry, hchild, hlisted⟩ := tree.hentries object dirent hdirent
  simp only [List.take_of_length_le hlength] at hname hino htype
  rw [← hname] at hchild
  refine ⟨⟨entry, hchild, hino.trans hlisted.hino⟩, fun walk hwalk hfine hkind => ?_⟩
  have hsupported : (tree.inode entry).kind ≠ .other := by
    rw [htype] at hkind
    obtain hreg | hdir := hkind
    · rw [hlisted.hreg hreg]
      decide
    · rw [hlisted.hdir hdir]
      decide
  have henter : tree.toNamedTree.enter object walk.name = some entry := by
    rw [NamedTree.enter, if_pos hdir, hwalk, hchild]
    exact Option.filter_eq_some_iff.mpr ⟨rfl, by simpa using hsupported⟩
  obtain ⟨final, hfinal, hend⟩ := walkStep_enters hdistinct state object walk entry hat hfine henter
  obtain ⟨⟨hiIno, -⟩, htyped⟩ := hend.inode
  refine ⟨final, hfinal, hiIno.trans (hino.trans hlisted.hino).symm, fun hreg => ?_, fun hdir => ?_⟩
  · rw [hlisted.hreg (htype.symm.trans hreg)] at htyped
    obtain ⟨-, hmode, -⟩ | ⟨hother, -⟩ := htyped
    · exact hmode
    · exact absurd hother (by decide)
  · rw [hlisted.hdir (htype.symm.trans hdir)] at htyped
    obtain ⟨hother, -⟩ | ⟨-, hmode, -⟩ := htyped
    · exact absurd hother (by decide)
    · exact hmode

/-- What the client finds in the directory is in the whole listing. -/
theorem AtObject.listed_of_found {state final : WalkState} {object : Object}
    (hat : AtObject tree.toNamedTree state object) (hdistinct : tree.toFileTree.DistinctNumbers)
    (hdir : (tree.inode object).kind = .dir) {walk : WalkStep} (hfine : LookupFine tree.toNamedTree state walk)
    (hne : walk.name.bytes ≠ []) (hsmall : SmallErrnos walk.arrival.kernel.lookup.pathLookup)
    (hfinal : walkStep state walk = some final) :
    ∃ call ∈ listingOf (tree.entries object), call.name = walk.name.bytes := by
  obtain ⟨entry, hchild⟩ := hat.child_of_found hdistinct hdir hfine hne hsmall hfinal
  obtain ⟨dirent, hdirent, hname⟩ := tree.hcomplete object walk.name.bytes entry hchild
  have hmem : (dirent, zeroFh) ∈ (tree.entries object).map (fun dirent => (dirent, zeroFh)) :=
    List.mem_map_of_mem hdirent
  obtain ⟨call, hcall, hcut⟩ := expectedCalls_mem (BitVec.allOnes 32) hmem
  rw [List.take_of_length_le (tree.hentries object dirent hdirent).1] at hcut
  exact ⟨call, hcall, hcut.trans hname⟩

variable (tree) in
/-- **What a client lists is what it can look up.** A client has mounted a directory of the tree and walked to
one of its directories; the server has served other requests since. READDIR with the count of a page is answered,
and when the directory fits the page, what the caller of `vsnfs_readdir` is handed can be looked up. -/
theorem client_lists_what_it_finds (hdistinct : tree.toFileTree.DistinctNumbers) (state : WalkState)
    (object : Object) (hreached : Reached tree state object) (hdir : (tree.inode object).kind = .dir)
    (others : List Event) (hothers : OthersFine tree.toNamedTree state.server others) :
    ∃ fh, state.dir.iPrivate = some fh ∧
      ∀ (rephdr : Nat) (svc : SvcRes) (after : List Byte) (env : ReaddirEnv) (stale : List Byte),
        svc.head.length = 4 * rephdr →
        ListFine tree (runFrom step state.server others).head (pageOf fh after) env →
        ∃ answer, readdirExchange rephdr (BitVec.ofNat 32 pageSize) svc (runFrom step state.server others).head
            (pageOf fh after) env stale = some answer ∧
          (Fits (readdirBudget pageSize) (tree.entries object) →
            ∀ (rounds : Nat) (file : ReaddirState (List FilldirCall)) (buffer : CallerBuffer) (entry : VsnfsEntry),
              (tree.entries object).length < rounds → file.fPos = 0 →
              (∃ res, (readdirAgain rounds file ⟨buffer, answer, entry⟩).1 = .returned res) ∧
                ListedTruly tree state object buffer
                  (readdirAgain rounds file ⟨buffer, answer, entry⟩).2.dirents) := by
  have hat := hreached.at hdistinct
  obtain ⟨⟨-, fh, hprivate, hreads, -⟩, -⟩ := hat.inode
  refine ⟨fh, hprivate, fun rephdr svc after env stale hsvc hfine => ?_⟩
  obtain ⟨hopened, hpassed⟩ := hat.opens hdistinct hdir hothers (hreads after) hfine
  obtain ⟨answer, hfor, hanswer⟩ := answerFor_opened rephdr svc hsvc hopened hfine.finishes stale
  rw [hpassed] at hfor
  refine ⟨answer, hanswer, fun hfits rounds file buffer entry hrounds hpos => ?_⟩
  have hfront := readdirAgain_prefix hfits hrounds hpos ⟨buffer, answer, entry⟩ hfor
  have hexit : (∃ res, (readdirAgain rounds file ⟨buffer, answer, entry⟩).1 = .returned res) ∧
      AgainExit buffer (listingOf (tree.entries object)) (readdirAgain rounds file ⟨buffer, answer, entry⟩).2 :=
    readdirAgain_exit hfits hrounds hpos hfor
  refine ⟨hexit.1, hfront, fun call hcall => hat.canBeFound hdistinct hdir (hfront.subset hcall), ?_, ?_⟩
  · intro htakes
    cases hexit.2 with
    | empty hlisting hdirents => exact hdirents.trans hlisting.symm
    | whole _ _ hdirents => exact hdirents
    | part hnot => exact absurd htakes hnot
  · intro walk final hne hfine' hsmall hfinal
    exact hat.listed_of_found hdistinct hdir hfine' hne hsmall hfinal

end Listing

/-! ### The listing of `/a` -/

/-- The entries of `x` and `y`. -/
def smallEntries : SmallObject → List Dirent
  | .top => [⟨[0x78], 0, 7, dtReg⟩, ⟨[0x79], 1, 9, dtReg⟩]
  | _ => []

/-- The directory `/a` with the listing of its two files. -/
def listedTree : ListedTree SmallObject where
  toNamedTree := namedTree
  entries := smallEntries
  hentries := by
    intro object dirent hdirent
    cases object with
    | top =>
        simp only [smallEntries, List.mem_cons, List.not_mem_nil, or_false] at hdirent
        obtain rfl | rfl := hdirent
        · exact ⟨by decide, .x, rfl, rfl, fun _ => rfl, fun htype => absurd htype (by decide)⟩
        · exact ⟨by decide, .y, rfl, rfl, fun _ => rfl, fun htype => absurd htype (by decide)⟩
    | x => cases hdirent
    | y => cases hdirent
  hcomplete := by
    intro object name entry hchild
    cases object with
    | top =>
        simp only [namedTree, smallChild] at hchild
        split at hchild
        · rename_i hx
          exact ⟨_, List.mem_cons_self, hx.symm⟩
        · split at hchild
          · rename_i hy
            exact ⟨_, List.mem_cons_of_mem _ List.mem_cons_self, hy.symm⟩
          · cases hchild
    | x => cases hchild
    | y => cases hchild

theorem mountedState_reached : Reached listedTree mountedState .top := by
  have hfine : MountFine namedTree Server.load (Arrival.of mountMessage netKernel) pathA :=
    ⟨memOf_holds _, by decide, ⟨rfl, rfl⟩, rfl, rfl,
      netTree_orderly (List.cons_ne_nil _ _) rfl (by decide) (by decide)⟩
  exact .mount [] trivial rfl (Arrival.of mountMessage netKernel) pathA hfine SmallObject.top rfl rfl zeroFh []
    newInode rfl mountedState rfl

/-- READDIR of `/a`, whose two entries are passed at once. -/
def listEnv : ReaddirEnv :=
  { opening := ⟨true, [], fun _ => .ok ()⟩
    entries := (smallEntries .top).map fun dirent => (dirent, zeroFh)
    failure := none
    page := [] }

theorem listEnv_fine : ListFine listedTree (some [firstRoot]) (pageOf mountFh []) listEnv where
  memory := rfl
  opens := fun _ _ _ _ => rfl
  finishes := rfl
  passes := by
    intro text errno hcalled object hdenotes
    have hcalls : (vsnfsdOpen (some [firstRoot]) (pageOf mountFh []).fh (pageOf mountFh []).after
        listEnv.opening).calls = [.kmalloc true, .filpOpen [slash, 0x61, slash] 0] := by decide
    rw [hcalls] at hcalled
    simp only [List.mem_cons, List.not_mem_nil, or_false, reduceCtorEq, false_or,
      ExtCall.filpOpen.injEq] at hcalled
    rw [hcalled.1] at hdenotes
    obtain rfl : SmallObject.top = object := Option.some.inj hdenotes
    rfl

/-- The client that has mounted `/a` and has room for two entries is handed `x` and `y`, and can look them up. -/
theorem mounted_root_listed :
    ∃ answer, readdirExchange 0 (BitVec.ofNat 32 pageSize) ⟨0, [], 0⟩ (some [firstRoot]) (pageOf mountFh [])
        listEnv [] = some answer ∧
      ListedTruly listedTree mountedState .top (bufferOf 1)
        (readdirAgain 3 (startOn []) ⟨bufferOf 1, answer, (startOn []).entry⟩).2.dirents := by
  obtain ⟨fh, hprivate, hlists⟩ := client_lists_what_it_finds listedTree netTree_distinct mountedState .top
    mountedState_reached rfl [] ⟨trivial, rfl⟩
  obtain rfl : mountFh = fh := Option.some.inj hprivate
  obtain ⟨answer, hanswer, hlisted⟩ := hlists 0 ⟨0, [], 0⟩ [] listEnv [] rfl listEnv_fine
  have hfits : Fits (readdirBudget pageSize) (smallEntries .top) := by
    refine ⟨?_, by decide⟩
    simp only [Dirent.Small]
    decide
  exact ⟨answer, hanswer, (hlisted hfits 3 (startOn []) (bufferOf 1) (startOn []).entry (by decide) rfl).2⟩

end Vsnfs
