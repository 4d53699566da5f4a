import Vsnfs.ServerTable

/-! The walks over the table. LOOKUP and the open behind READDIR and READ each search it for a handle
with a loop of their own, and shutdown frees it. The two searches take different handles for valid
ones, and each of the three loops can run before the first mount has initialised the list head. -/

namespace Vsnfs

open Base

/-! ### Which handles are valid -/

/-- LOOKUP turns the handle away: whatever the name and the kernel's answers are, once it has its memory
it returns a status other than `vsnfs_ok` and looks no path up. -/
def LookupRejects (nodes : List Node) (fh : VsnfsFh) (after : List Byte) : Prop :=
  ∀ (filename : FileName) (env : LookupEnv), env.pathAlloc = true → env.ndAlloc = true →
    ∃ status, (serve (some nodes) (.lookup ⟨fh, after, filename⟩ env)).status = some status ∧
      status ≠ vsnfserr .ok ∧
      ∀ path errno, .pathLookup path errno ∉ (serve (some nodes) (.lookup ⟨fh, after, filename⟩ env)).calls

/-- The open turns the handle away: once it has its memory it returns `vsnfserr_noent`, which it does
only where `vsnfsd_fh_to_path` finds no entry. -/
def OpenRejects (nodes : List Node) (fh : VsnfsFh) (after : List Byte) : Prop :=
  ∀ (File : Type) (env : OpenEnv File), env.pathAlloc = true →
    (vsnfsdOpen (some nodes) fh after env).status = some (vsnfserr .noent)

/-- The two searches agree on a handle, and no LOOKUP answers a handle with `vsnfs_ok` that the open
turns away. The memory behind the argument records of the two requests may differ. -/
def SearchesAgree (nodes : List Node) (fh : VsnfsFh) (after behind : List Byte) : Prop :=
  (LookupRejects nodes fh after ↔ OpenRejects nodes fh behind) ∧
    (OpenRejects nodes fh behind → ∀ filename env,
      (serve (some nodes) (.lookup ⟨fh, after, filename⟩ env)).status ≠ some (vsnfserr .ok))

/-- Whatever the handle is, LOOKUP returns `vsnfs_ok` when nothing fails: for a known handle because
the path was found, for an unknown one because the status was never changed. -/
theorem lookup_ok_of_found (nodes : List Node) (args : LookupArgs) (inode : Inode) :
    (serve (some nodes) (.lookup args (LookupEnv.answering (.found inode)))).status =
      some (vsnfserr .ok) := by
  simp only [serve, Outcome.served]
  cases lookup_exit nodes args zeroFh (LookupEnv.answering (.found inode)) with
  | unknown _ hstatus => exact hstatus
  | noPath _ _ hpath => cases hpath
  | noNd _ _ _ hnd => cases hnd
  | noDentry _ _ _ _ hdentry => cases hdentry
  | known _ _ _ _ hstatus => exact hstatus
  | noNode _ _ _ _ hnode => cases hnode
  | noNodePath _ _ _ _ _ hnodePath => cases hnodePath
  | added _ _ _ _ _ _ hstatus => exact hstatus

/-- LOOKUP turns no handle away. -/
theorem not_lookupRejects (nodes : List Node) (fh : VsnfsFh) (after : List Byte) :
    ¬ LookupRejects nodes fh after := by
  intro hrejects
  obtain ⟨status, hstatus, hne, -⟩ :=
    hrejects oneLetterName (LookupEnv.answering (.found ⟨0, .reg⟩)) rfl rfl
  rw [lookup_ok_of_found] at hstatus
  exact hne (Option.some.inj hstatus).symm

theorem fhToPath_of_unknown {nodes : List Node} {fh : VsnfsFh} {after : List Byte}
    (hunknown : fh.ino after = 0 ∨ findNode nodes (fh.ino after) = none) (path : Buffer) (len : Nat) :
    vsnfsdFhToPath (some nodes) fh after path len = some (-1, path) := by
  by_cases hino : fh.ino after = 0
  · simp only [vsnfsdFhToPath, if_pos hino]
  · simp only [vsnfsdFhToPath, if_neg hino, hunknown.resolve_left hino]

/-- The open turns away the handles that parse to zero and those with no entry. -/
theorem openRejects_iff (nodes : List Node) (fh : VsnfsFh) (after : List Byte) :
    OpenRejects nodes fh after ↔ fh.ino after = 0 ∨ findNode nodes (fh.ino after) = none := by
  constructor
  · intro hrejects
    by_contra hknown
    obtain ⟨hino, hsome⟩ := not_or.mp hknown
    obtain ⟨node, hfind⟩ := Option.ne_none_iff_exists'.mp hsome
    have hnoent := hrejects Unit ⟨true, [], fun _ => .ok ()⟩ rfl
    simp only [vsnfsdOpen, vsnfsdFhToPath, if_neg hino, hfind] at hnoent
    have hcode : vsnfserr .ok = vsnfserr .noent := Option.some.inj hnoent
    exact absurd hcode (by decide)
  · intro hunknown File env hpath
    simp only [vsnfsdOpen, hpath, fhToPath_of_unknown hunknown]
    rfl

/-- **The two searches and the handles they take for valid.** On every table, LOOKUP and the open agree
on a handle exactly when the open finds an entry for it. -/
theorem searches_agree_iff (nodes : List Node) (fh : VsnfsFh) (after behind : List Byte) :
    SearchesAgree nodes fh after behind ↔
      fh.ino behind ≠ 0 ∧ ∃ node ∈ nodes, node.ino = fh.ino behind := by
  have hknown : (fh.ino behind ≠ 0 ∧ ∃ node ∈ nodes, node.ino = fh.ino behind) ↔
      ¬ OpenRejects nodes fh behind := by
    rw [openRejects_iff, findNode_eq_none_iff, not_or]
    simp only [ne_eq, not_forall, not_not, exists_prop]
  rw [hknown]
  constructor
  · intro hagree hopen
    exact not_lookupRejects nodes fh after (hagree.1.mpr hopen)
  · intro hopen
    exact ⟨iff_of_false (not_lookupRejects nodes fh after) hopen, fun h => absurd h hopen⟩

/-- After a mount with the root number 5 no entry has the number 9; LOOKUP of a name under that handle
is answered with `vsnfs_ok`, and the open reports `vsnfserr_noent`. -/
theorem unknown_handle_divides_searches :
    (runFrom step Server.load [mountOf 0x61 (by decide) (.found ⟨5, .dir⟩)]).head = some [firstRoot] ∧
      ¬ SearchesAgree [firstRoot] (zeroFh.print 9) [] [] := by
  refine ⟨by decide, fun hagree => ?_⟩
  have hparse : (zeroFh.print 9).ino [] = 9 := (VsnfsFh.ino_print_eq_iff zeroFh 9 []).mpr (by decide)
  have hopen : OpenRejects [firstRoot] (zeroFh.print 9) [] := by
    rw [openRejects_iff, hparse]
    exact Or.inr (by decide)
  exact hagree.2 hopen oneLetterName (LookupEnv.answering (.found ⟨0, .reg⟩))
    (lookup_ok_of_found _ _ _)

/-! ### The zeroed list head -/

/-- The loop of `vsnfsd_last_thread`: each entry is freed and taken off the list. What was freed, and
what is left. -/
def freeEntries (freed : List Node) : List Node → List Node × List Node
  | [] => (freed, [])
  | node :: rest => freeEntries (freed ++ [node]) rest

/-- `none` when the walk starts from the zeroed head. -/
def vsnfsdLastThread (head : Head) : Option (List Node × Head) :=
  match head with
  | none => none
  | some nodes => some ((freeEntries [] nodes).1, some (freeEntries [] nodes).2)

theorem freeEntries_eq (freed nodes : List Node) : freeEntries freed nodes = (freed ++ nodes, []) := by
  induction nodes generalizing freed with
  | nil => rw [freeEntries, List.append_nil]
  | cons node rest ih => rw [freeEntries, ih, List.append_assoc, List.singleton_append]

/-- Shutdown frees every entry of an initialised table, once, and leaves the table empty. -/
theorem lastThread_eq (head : Head) :
    vsnfsdLastThread head = head.map (fun nodes => (nodes, some [])) := by
  cases head with
  | none => rfl
  | some nodes => rw [vsnfsdLastThread, freeEntries_eq, List.nil_append, Option.map_some]

/-- What the service meets after the module was loaded. -/
inductive ServiceEvent where
  | request (event : Event)
  | shutdown

/-- A request is served by the thread, if it is still there. Shutdown runs when the last thread leaves,
and none is started again; a thread that was stopped never leaves. -/
def serviceStep (server : Server) : ServiceEvent → Server
  | .request event => step server event
  | .shutdown =>
      if server.down then server
      else
        match vsnfsdLastThread server.head with
        | none => ⟨server.head, true⟩
        | some (_, head) => ⟨head, true⟩

/-- The open walks the table from the zeroed head. -/
def OpenWalksZeroed {File : Type} (head : Head) (fh : VsnfsFh) (after : List Byte) (env : OpenEnv File) :
    Prop :=
  env.pathAlloc = true ∧
    vsnfsdFhToPath head fh after (Buffer.alloc vsnfsMaxpathlen env.junk) vsnfsMaxpathlen = none

/-- One of the three loops over `vsnfs_lp_tab.list` starts from the zeroed head. The loop of LOOKUP is
the first thing it does. -/
def WalksZeroed (server : Server) : ServiceEvent → Prop
  | .request (.lookup _ _) => server.down = false ∧ server.head = none
  | .request (.readdir args env) =>
      server.down = false ∧ OpenWalksZeroed server.head args.fh args.after env.opening
  | .request (.read args env) =>
      server.down = false ∧ OpenWalksZeroed server.head args.fh args.after env.opening
  | .request _ => False
  | .shutdown => server.down = false ∧ vsnfsdLastThread server.head = none

/-- The event walks the table, whatever state that is in. -/
def Walks : ServiceEvent → Prop
  | .request (.lookup _ _) => True
  | .request (.readdir args env) => env.opening.pathAlloc = true ∧ args.fh.ino args.after ≠ 0
  | .request (.read args env) => env.opening.pathAlloc = true ∧ args.fh.ino args.after ≠ 0
  | .request _ => False
  | .shutdown => True

/-- A mount that had its memory and met no regular file. It initialises the list head, or it is stopped
by the missing dentry of a failed path lookup, and the thread with it. -/
def Mounts : ServiceEvent → Prop
  | .request (.getroot args env) => (env.ndAlloc = true ∧ env.pathAlloc = true) ∧
      ∀ root, (rootAnswer args env).dentry = some root → root.kind ≠ .reg
  | _ => False

theorem mounts_of_dentry {args : GetrootArgs} {env : GetrootEnv} {root : Inode}
    (halloc : env.ndAlloc = true ∧ env.pathAlloc = true) (hdentry : (rootAnswer args env).dentry = some root)
    (hkind : root.kind ≠ .reg) : Mounts (.request (.getroot args env)) := by
  refine ⟨halloc, fun other hother => ?_⟩
  rwa [← Option.some.inj (hdentry.symm.trans hother)]

theorem not_walks_of_mounts {event : ServiceEvent} (h : Mounts event) : ¬ Walks event := by
  cases event with
  | shutdown => cases h
  | request event =>
      cases event with
      | getroot args env => exact id
      | null dummy => cases h
      | lookup args env => cases h
      | readdir args env => cases h
      | read args env => cases h

/-- No event walks the table before such a mount. -/
def MountFirst : List ServiceEvent → Prop
  | [] => True
  | event :: later => Mounts event ∨ (¬ Walks event ∧ MountFirst later)

/-- Nothing has touched the list head since the module was loaded. -/
def Fresh (server : Server) : Prop := server.down = false ∧ server.head = none

/-- The list head was initialised, or there is nobody left to walk it. -/
def Settled (server : Server) : Prop := server.down = true ∨ server.head ≠ none

theorem not_settled_of_fresh {server : Server} (h : Fresh server) : ¬ Settled server := by
  rintro (hdown | hhead)
  · cases h.1.symm.trans hdown
  · exact hhead h.2

section Zeroed

variable (server : Server)

theorem openWalksZeroed_iff {File : Type} (head : Head) (fh : VsnfsFh) (after : List Byte)
    (env : OpenEnv File) :
    OpenWalksZeroed head fh after env ↔ head = none ∧ env.pathAlloc = true ∧ fh.ino after ≠ 0 := by
  rw [OpenWalksZeroed, fhToPath_eq_none_iff]
  tauto

/-- The open is stopped exactly where it walks from the zeroed head. -/
theorem open_stopped_iff {File : Type} (head : Head) (fh : VsnfsFh) (after : List Byte)
    (env : OpenEnv File) :
    (vsnfsdOpen head fh after env).status = none ↔ OpenWalksZeroed head fh after env := by
  rw [openWalksZeroed_iff]
  have hnot (hwalk : fh.ino after = 0 ∨ head ≠ none) :
      ¬ (head = none ∧ env.pathAlloc = true ∧ fh.ino after ≠ 0) := by
    rintro ⟨hhead, -, hino⟩
    exact hwalk.elim hino (fun hne => hne hhead)
  cases open_exit head fh after env with
  | noMemory hpath hstatus =>
      refine iff_of_false (by simp [hstatus]) ?_
      rintro ⟨-, htrue, -⟩
      cases hpath.symm.trans htrue
  | stopped hpath hino hhead hstatus => exact iff_of_true hstatus ⟨hhead, hpath, hino⟩
  | noEntry hwalk hstatus => exact iff_of_false (by simp [hstatus]) (hnot hwalk)
  | refused hwalk hstatus => exact iff_of_false (by simp [hstatus]) (hnot hwalk)
  | opened _ hwalk hstatus => exact iff_of_false (by simp [hstatus]) (hnot hwalk)

theorem readdir_stopped_iff (head : Head) (args : ReaddirArgs) (env : ReaddirEnv) :
    (serve head (.readdir args env)).status = none ↔
      OpenWalksZeroed head args.fh args.after env.opening := by
  rw [← open_stopped_iff]
  simp only [serve, Outcome.served, vsnfsdProcReaddir, vsnfsdReaddir]
  cases hfile : (vsnfsdOpen head args.fh args.after env.opening).file with
  | none => exact Iff.rfl
  | some file =>
      have hstatus := open_status_of_file hfile
      simp only [hstatus]
      split <;> simp [Outcome.call]

theorem read_stopped_iff (head : Head) (args : ReadArgs) (env : ReadEnv) :
    (serve head (.read args env)).status = none ↔
      OpenWalksZeroed head args.fh args.after env.opening := by
  rw [← open_stopped_iff]
  simp only [serve, Outcome.served, vsnfsdProcRead, vsnfsdRead]
  cases hfile : (vsnfsdOpen head args.fh args.after env.opening).file with
  | none => exact Iff.rfl
  | some file =>
      have hstatus := open_status_of_file hfile
      simp only [hstatus]
      split <;> simp [Outcome.call]

/-- The walks from the zeroed head are the walks of an untouched server. -/
theorem walksZeroed_iff (event : ServiceEvent) : WalksZeroed server event ↔ Fresh server ∧ Walks event := by
  cases event with
  | shutdown => simp [WalksZeroed, Walks, Fresh, lastThread_eq]
  | request event =>
      cases event with
      | null dummy => simp [WalksZeroed, Walks]
      | getroot args env => simp [WalksZeroed, Walks]
      | lookup args env => simp [WalksZeroed, Walks, Fresh]
      | readdir args env =>
          simp only [WalksZeroed, Walks, Fresh, openWalksZeroed_iff, and_assoc]
      | read args env =>
          simp only [WalksZeroed, Walks, Fresh, openWalksZeroed_iff, and_assoc]

/-- An initialised list head stays initialised. -/
theorem serviceStep_settled (event : ServiceEvent) (h : Settled server) :
    Settled (serviceStep server event) := by
  by_cases hdown : server.down = true
  · refine Or.inl ?_
    cases event with
    | request event => rwa [serviceStep, step, if_pos hdown]
    | shutdown => rwa [serviceStep, if_pos hdown]
  · have hhead : server.head ≠ none := h.resolve_left hdown
    cases event with
    | request event =>
        refine Or.inr ?_
        rw [serviceStep, step, if_neg hdown]
        cases serve_tableStep server.head event with
        | same hsame => rwa [hsame]
        | insert nodes node _ _ hhead' => simp [hhead']
        | reset _ _ _ hhead' =>
            rcases hhead' with hhead' | ⟨root, hhead'⟩
            · simp [hhead']
            · simp [hhead']
    | shutdown =>
        refine Or.inl ?_
        rw [serviceStep, if_neg hdown]
        split <;> rfl

/-- After such a mount the list head is initialised or the thread is gone. -/
theorem serviceStep_of_mounts {event : ServiceEvent} (hmounts : Mounts event) :
    Settled (serviceStep server event) := by
  cases event with
  | shutdown => cases hmounts
  | request event =>
      cases event with
      | null dummy => cases hmounts
      | lookup args env => cases hmounts
      | readdir args env => cases hmounts
      | read args env => cases hmounts
      | getroot args env =>
          by_cases hdown : server.down = true
          · exact Or.inl (by rwa [serviceStep, step, if_pos hdown])
          rw [serviceStep, step, if_neg hdown]
          simp only [serve, Outcome.served]
          cases getroot_exit server.head args zeroFh env with
          | noMemory halloc => exact absurd hmounts.1 halloc
          | noDentry _ _ hstatus => exact Or.inl (by simp [hstatus])
          | notDir root _ hdentry hkind => exact absurd hkind (hmounts.2 root hdentry)
          | noNode _ _ _ _ _ hstatus => exact Or.inl (by simp [hstatus])
          | noNodePath _ _ _ _ _ _ _ hhead => exact Or.inr (by simp [hhead])
          | added _ _ _ _ _ _ _ hhead => exact Or.inr (by simp [hhead])

/-- A GETROOT that is no such mount is answered, and leaves the table alone. -/
theorem getroot_turned_away (head : Head) {args : GetrootArgs} {env : GetrootEnv}
    (hmounts : ¬ Mounts (.request (.getroot args env))) :
    (serve head (.getroot args env)).status ≠ none ∧ (serve head (.getroot args env)).head = head := by
  simp only [serve, Outcome.served]
  cases getroot_exit head args zeroFh env with
  | noMemory _ hstatus hhead => exact ⟨by simp [hstatus], hhead⟩
  | notDir _ _ _ _ hstatus hhead => exact ⟨by simp [hstatus], hhead⟩
  | noDentry halloc hdentry =>
      refine absurd ⟨halloc, fun root hroot => ?_⟩ hmounts
      cases hdentry.symm.trans hroot
  | noNode root halloc hdentry hkind => exact absurd (mounts_of_dentry halloc hdentry hkind) hmounts
  | noNodePath root halloc hdentry hkind => exact absurd (mounts_of_dentry halloc hdentry hkind) hmounts
  | added root halloc hdentry hkind => exact absurd (mounts_of_dentry halloc hdentry hkind) hmounts

/-- A request whose status is known and whose table is the old one leaves the server as it was. -/
theorem fresh_of_served {event : Event} (hfresh : Fresh server)
    (hstatus : (serve server.head event).status ≠ none)
    (hhead : (serve server.head event).head = server.head) : Fresh (step server event) := by
  have hup : ¬ server.down = true := by rw [hfresh.1]; exact Bool.false_ne_true
  rw [step, if_neg hup]
  refine ⟨?_, hhead.trans hfresh.2⟩
  rw [Option.isNone_eq_false_iff, ← Option.ne_none_iff_isSome]
  exact hstatus

/-- Everything else leaves an untouched server untouched. -/
theorem serviceStep_fresh {event : ServiceEvent} (hfresh : Fresh server) (hmounts : ¬ Mounts event)
    (hwalks : ¬ Walks event) : Fresh (serviceStep server event) := by
  have hquiet : ¬ WalksZeroed server event := fun h => hwalks ((walksZeroed_iff server event).mp h).2
  cases event with
  | shutdown => exact absurd trivial hwalks
  | request event =>
      cases event with
      | null dummy => exact fresh_of_served server hfresh (by simp [serve, Outcome.served, vsnfsdProcNull,
          Outcome.enter]) rfl
      | lookup args env => exact absurd trivial hwalks
      | readdir args env =>
          refine fresh_of_served server hfresh ?_ (readdir_head server.head args env)
          intro hstatus
          exact hquiet ⟨hfresh.1, (readdir_stopped_iff server.head args env).mp hstatus⟩
      | read args env =>
          refine fresh_of_served server hfresh ?_ (read_head server.head args env)
          intro hstatus
          exact hquiet ⟨hfresh.1, (read_stopped_iff server.head args env).mp hstatus⟩
      | getroot args env =>
          have hserved := getroot_turned_away server.head hmounts
          exact fresh_of_served server hfresh hserved.1 hserved.2

end Zeroed

/-- From an untouched server, no walk starts from the zeroed head exactly when a mount comes first. -/
theorem along_fresh_iff {server : Server} (hfresh : Fresh server) (events : List ServiceEvent) :
    Along serviceStep (fun server event => ¬ WalksZeroed server event) server events ↔
      MountFirst events := by
  induction events generalizing server with
  | nil => exact Iff.rfl
  | cons event later ih =>
      by_cases hmounts : Mounts event
      · -- from here on the head is initialised
        refine iff_of_true ⟨?_, ?_⟩ (Or.inl hmounts)
        · exact fun h => not_walks_of_mounts hmounts ((walksZeroed_iff server event).mp h).2
        · refine along_of_invariant (I := Settled) serviceStep_settled ?_
            (serviceStep_of_mounts server hmounts) later
          intro state other hsettled hzeroed
          exact not_settled_of_fresh ((walksZeroed_iff state other).mp hzeroed).1 hsettled
      · by_cases hwalks : Walks event
        · refine iff_of_false (fun h => h.1 ((walksZeroed_iff server event).mpr ⟨hfresh, hwalks⟩)) ?_
          rintro (h | h)
          · exact hmounts h
          · exact h.1 hwalks
        · have hstep := ih (serviceStep_fresh server hfresh hmounts hwalks)
          constructor
          · exact fun h => Or.inr ⟨hwalks, hstep.mp h.2⟩
          · intro h
            refine ⟨fun hzeroed => hwalks ((walksZeroed_iff server event).mp hzeroed).2, ?_⟩
            exact hstep.mpr (h.resolve_left hmounts).2

/-- **The list head is initialised before use.** In a run of the service no walk over the table starts
from the zeroed head exactly when a mount comes before the first walk. -/
theorem no_zeroed_walk_iff (events : List ServiceEvent) :
    Along serviceStep (fun server event => ¬ WalksZeroed server event) Server.load events ↔
      MountFirst events :=
  along_fresh_iff ⟨rfl, rfl⟩ events

/-- A LOOKUP is the first request after the module was loaded. -/
theorem early_lookup_walks_zeroed :
    ¬ ∀ events, Along serviceStep (fun server event => ¬ WalksZeroed server event) Server.load events := by
  intro hall
  have hrun := hall [.request (.lookup ⟨zeroFh, [], oneLetterName⟩ (LookupEnv.answering (.found ⟨5, .reg⟩)))]
  exact hrun.1 ⟨rfl, rfl⟩

end Vsnfs
