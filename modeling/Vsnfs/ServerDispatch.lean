import Vsnfs.ServerTable

/-! The dispatcher: decode, call the handler, store its status, and encode the result only after
`vsnfs_ok`. Whatever word a handler returns goes to the wire as it is, so the status the client reads
is judged from the exits of the handlers. -/

namespace Vsnfs

open Base

/-- The accept status of the RPC layer. -/
inductive AcceptStat where
  | success | garbageArgs | systemErr
  deriving DecidableEq

/-- What `vsnfsd_dispatch` leaves of the reply. -/
structure Dispatched (Res : Type) where
  statp : AcceptStat
  svc : SvcRes
  resp : Option Res

/-- `vsnfsd_dispatch` with the functions of one row of the procedure table; `none` when the handler
was stopped. -/
def vsnfsdDispatch {Args Res : Type} (svc : SvcRes) (decoded : Option Args)
    (func : Args → Outcome Res) (encode : SvcRes → Res → SvcRes × Res × Bool) :
    Option (Dispatched Res) :=
  match decoded with
  | none => some ⟨.garbageArgs, svc, none⟩
  | some args =>
      match (func args).status with
      | none => none
      | some nfserr =>
          let svc := svc.emit (leBytes nfserr)
          if nfserr = 0 then
            let (svc, resp, ok) := encode svc (func args).resp
            some ⟨if ok then .success else .systemErr, svc, some resp⟩
          else some ⟨.success, svc, some (func args).resp⟩

/-- An encoder that only writes to the head. -/
def headEncoder {Res : Type} (encode : SvcRes → Res → SvcRes × Bool) (svc : SvcRes) (resp : Res) :
    SvcRes × Res × Bool := ((encode svc resp).1, resp, (encode svc resp).2)

/-! ### The rows of `vsnfsd_procedures1` -/

def dispatchNull (svc : SvcRes) (head : Head) (decoded : Option Word) : Option (Dispatched Word) :=
  vsnfsdDispatch svc decoded (vsnfsdProcNull head) (headEncoder vsnfssvcEncodeNullres)

def dispatchGetroot (svc : SvcRes) (head : Head) (decoded : Option GetrootArgs) (env : GetrootEnv) :
    Option (Dispatched VsnfsFh) :=
  vsnfsdDispatch svc decoded (fun args => vsnfsdProcGetroot head args zeroFh env)
    (headEncoder vsnfssvcEncodeFhandle)

def dispatchLookup (svc : SvcRes) (head : Head) (decoded : Option LookupArgs) (env : LookupEnv) :
    Option (Dispatched VsnfsFh) :=
  vsnfsdDispatch svc decoded (fun args => vsnfsdProcLookup head args zeroFh env)
    (headEncoder vsnfssvcEncodeFhandle)

def dispatchReaddir (svc : SvcRes) (head : Head) (decoded : Option ReaddirArgs) (env : ReaddirEnv) :
    Option (Dispatched ReaddirRes) :=
  vsnfsdDispatch svc decoded (fun args => vsnfsdProcReaddir head args env) vsnfssvcEncodeReaddirres

def dispatchRead (svc : SvcRes) (head : Head) (decoded : Option ReadArgs) (env : ReadEnv) :
    Option (Dispatched ReadRes) :=
  vsnfsdDispatch svc decoded (fun args => vsnfsdProcRead head args env)
    (headEncoder (fun svc res => vsnfssvcEncodeReadres svc res.count))

/-- The reply head of a decoded request. -/
def replyHead (svc : SvcRes) (head : Head) : Event → Option (List Byte)
  | .null dummy => (dispatchNull svc head (some dummy)).map (fun out => out.svc.head)
  | .getroot args env => (dispatchGetroot svc head (some args) env).map (fun out => out.svc.head)
  | .lookup args env => (dispatchLookup svc head (some args) env).map (fun out => out.svc.head)
  | .readdir args env => (dispatchReaddir svc head (some args) env).map (fun out => out.svc.head)
  | .read args env => (dispatchRead svc head (some args) env).map (fun out => out.svc.head)

/-- The status as the client reads it, `ntohl(*p++)` at the place the dispatcher reserved. -/
def wireStatus (svc : SvcRes) (head : Head) (event : Event) : Option Word :=
  (replyHead svc head event).bind fun bytes =>
    (take32 (bytes.drop svc.head.length)).map (fun word => ntohl word.1)

section Status

variable {Args Res : Type}

/-- The word behind the old head is the handler's status, whatever the encoder adds behind it. -/
theorem dispatch_status (svc : SvcRes) (args : Args) (func : Args → Outcome Res)
    (encode : SvcRes → Res → SvcRes × Res × Bool)
    (hencode : ∀ svc resp, ∃ more, (encode svc resp).1.head = svc.head ++ more) :
    ((vsnfsdDispatch svc (some args) func encode).map (fun out => out.svc.head)).bind
        (fun bytes => (take32 (bytes.drop svc.head.length)).map (fun word => ntohl word.1)) =
      (func args).status.map ntohl := by
  rw [vsnfsdDispatch]
  cases (func args).status with
  | none => rfl
  | some nfserr =>
      simp only
      by_cases hzero : nfserr = 0
      · obtain ⟨more, hmore⟩ := hencode (svc.emit (leBytes nfserr)) (func args).resp
        rw [if_pos hzero]
        simp only [Option.map_some, Option.bind_some, hmore]
        simp only [SvcRes.emit, List.append_assoc, List.drop_left, take32_leBytes, Option.map_some]
      · rw [if_neg hzero]
        have htake := take32_leBytes nfserr []
        rw [List.append_nil] at htake
        simp only [Option.map_some, Option.bind_some, SvcRes.emit, List.drop_left, htake]

end Status

/-- **The client reads what the handler returned.** -/
theorem wireStatus_eq (svc : SvcRes) (head : Head) (event : Event) :
    wireStatus svc head event = (serve head event).status.map ntohl := by
  cases event with
  | null dummy =>
      exact dispatch_status svc dummy (vsnfsdProcNull head) (headEncoder vsnfssvcEncodeNullres)
        fun _ resp => ⟨leBytes (htonl resp), rfl⟩
  | getroot args env =>
      apply dispatch_status svc args
      exact fun _ resp => ⟨encodeFh resp ++ leBytes (htonl resp.type), List.append_assoc _ _ _⟩
  | lookup args env =>
      apply dispatch_status svc args
      exact fun _ resp => ⟨encodeFh resp ++ leBytes (htonl resp.type), List.append_assoc _ _ _⟩
  | readdir args env =>
      apply dispatch_status svc args
      exact fun _ _ => ⟨[], (List.append_nil _).symm⟩
  | read args env =>
      apply dispatch_status svc args
      exact fun _ resp => ⟨leBytes (htonl (resp.count.setWidth 32)), rfl⟩

/-! ### Sound statuses -/

/-- The client reads a value of the enumeration, and not `VSNFS_OK` after a failed call. -/
def SoundStatus (svc : SvcRes) (head : Head) (event : Event) : Prop :=
  ∃ word, wireStatus svc head event = some word ∧ IsStat word ∧
    ((∃ call ∈ (serve head event).calls, call.Failed) → word ≠ BitVec.ofNat 32 VsnfsStat.ok.code)

/-- LOOKUP on an initialised table: the handle is unknown, or every call on the way succeeds. -/
def LookupSafe (nodes : List Node) (args : LookupArgs) (env : LookupEnv) : Prop :=
  findNode nodes (args.fh.ino args.after) = none ∨
    ∃ node inode, LookupResolved nodes args env node inode ∧ lookupAnswer node args env = .found inode ∧
      ((findNode nodes inode.ino).isSome = true ∨ env.nodeAlloc = true ∧ env.nodePathAlloc = true)

/-- The exits with a proper status. NULL has no other. READDIR and READ have a proper status for every
failed call, and only must not walk the zeroed head. GETROOT has one only when everything succeeds and
the root is no regular file, LOOKUP only when everything succeeds or the handle is unknown. -/
def StatusSafe (head : Head) : Event → Prop
  | .null _ => True
  | .getroot args env => (env.ndAlloc = true ∧ env.pathAlloc = true) ∧
      (∃ root, rootAnswer args env = .found root ∧ root.kind ≠ .reg) ∧
      env.nodeAlloc = true ∧ env.nodePathAlloc = true
  | .lookup args env => ∃ nodes, head = some nodes ∧ LookupSafe nodes args env
  | .readdir args env => env.opening.pathAlloc = false ∨ args.fh.ino args.after = 0 ∨ head ≠ none
  | .read args env => env.opening.pathAlloc = false ∨ args.fh.ino args.after = 0 ∨ head ≠ none

/-- Soundness of the triple a request leaves. -/
def Served.Sound (served : Served) : Prop :=
  ∃ status, served.status = some status ∧ IsStat (ntohl status) ∧
    ((∃ call ∈ served.calls, call.Failed) → status ≠ 0)

theorem soundStatus_iff (svc : SvcRes) (head : Head) (event : Event) :
    SoundStatus svc head event ↔ (serve head event).Sound := by
  simp only [SoundStatus, Served.Sound, wireStatus_eq, Option.map_eq_some_iff]
  constructor
  · rintro ⟨_, ⟨status, hstatus, rfl⟩, hstat, hfailed⟩
    refine ⟨status, hstatus, hstat, fun hcall hzero => hfailed hcall ?_⟩
    exact (htonl_eq_zero_iff status).mpr hzero
  · rintro ⟨status, hstatus, hstat, hfailed⟩
    refine ⟨ntohl status, ⟨status, hstatus, rfl⟩, hstat, fun hcall hzero => hfailed hcall ?_⟩
    exact (htonl_eq_zero_iff status).mp hzero

section Served

variable {served : Served}

theorem Served.not_sound_of_none (hstatus : served.status = none) : ¬ served.Sound := by
  rintro ⟨status, hsome, -⟩
  rw [hstatus] at hsome
  cases hsome

theorem Served.not_sound_of_not_isStat {status : Word} (hstatus : served.status = some status)
    (hstat : ¬ IsStat (ntohl status)) : ¬ served.Sound := by
  rintro ⟨other, hsome, hother, -⟩
  rw [hstatus] at hsome
  cases hsome
  exact hstat hother

theorem Served.sound_of_ok (hstatus : served.status = some 0)
    (hcalls : ∀ call ∈ served.calls, ¬ call.Failed) : served.Sound := by
  refine ⟨0, hstatus, ⟨.ok, by decide⟩, ?_⟩
  rintro ⟨call, hcall, hfailed⟩
  exact absurd hfailed (hcalls call hcall)

theorem Served.sound_of_error {stat : VsnfsStat} (hstatus : served.status = some (vsnfserr stat))
    (hne : stat ≠ .ok) : served.Sound :=
  ⟨vsnfserr stat, hstatus, isStat_vsnfserr stat, fun _ hzero => hne ((vsnfserr_eq_zero_iff stat).mp hzero)⟩

/-- The result of `path_lookup` as a status: sound exactly when the lookup succeeded. -/
theorem Served.sound_word_iff {answer : PathLookup} (hstatus : served.status = some answer.word)
    (hcalls : answer.errno = 0 → ∀ call ∈ served.calls, ¬ call.Failed) :
    served.Sound ↔ ∃ inode, answer = .found inode := by
  cases answer with
  | found inode => exact iff_of_true (sound_of_ok hstatus (hcalls rfl)) ⟨inode, rfl⟩
  | failed failure stale =>
      refine iff_of_false ?_ (by rintro ⟨inode, h⟩; cases h)
      exact not_sound_of_not_isStat hstatus (not_isStat_of_negative failure.word_negative)

end Served

theorem getroot_sound_iff (head : Head) (args : GetrootArgs) (env : GetrootEnv) :
    (serve head (.getroot args env)).Sound ↔ StatusSafe head (.getroot args env) := by
  simp only [serve, StatusSafe]
  cases getroot_exit head args zeroFh env with
  | noMemory halloc hstatus _ =>
      refine iff_of_false (Served.not_sound_of_not_isStat hstatus not_isStat_neg_vsnfserr_nospc) ?_
      exact fun hsafe => halloc hsafe.1
  | noDentry halloc hdentry hstatus _ =>
      refine iff_of_false (Served.not_sound_of_none hstatus) ?_
      rintro ⟨-, ⟨root, hfound, -⟩, -⟩
      rw [hfound] at hdentry
      cases hdentry
  | notDir root halloc hdentry hkind hstatus _ =>
      refine iff_of_false (Served.not_sound_of_not_isStat hstatus not_isStat_neg_vsnfserr_notdir) ?_
      rintro ⟨-, ⟨other, hfound, hother⟩, -⟩
      rw [hfound] at hdentry
      cases hdentry
      exact hother hkind
  | noNode root halloc hdentry hkind hnode hstatus _ =>
      refine iff_of_false (Served.not_sound_of_none hstatus) ?_
      rintro ⟨-, -, htrue, -⟩
      cases hnode.symm.trans htrue
  | noNodePath root halloc hdentry hkind hnode hnodePath hstatus _ =>
      refine iff_of_false (Served.not_sound_of_not_isStat hstatus not_isStat_neg_vsnfserr_nospc) ?_
      rintro ⟨-, -, -, htrue⟩
      cases hnodePath.symm.trans htrue
  | added root halloc hdentry hkind hnode hnodePath hstatus _ _ hcalls =>
      rw [Served.sound_word_iff hstatus hcalls]
      constructor
      · rintro ⟨inode, hfound⟩
        have hsame : inode = root := by
          rw [hfound] at hdentry
          exact Option.some.inj hdentry
        exact ⟨halloc, ⟨root, by rw [hfound, hsame], hkind⟩, hnode, hnodePath⟩
      · rintro ⟨-, ⟨inode, hfound, -⟩, -⟩
        exact ⟨inode, hfound⟩

theorem lookupSafe_iff_of_resolved {nodes : List Node} {args : LookupArgs} {env : LookupEnv} {node : Node}
    {inode : Inode} (hfound : LookupResolved nodes args env node inode) :
    LookupSafe nodes args env ↔ (∃ other, lookupAnswer node args env = .found other) ∧
      ((findNode nodes inode.ino).isSome = true ∨ env.nodeAlloc = true ∧ env.nodePathAlloc = true) := by
  constructor
  · rintro (hnone | ⟨other, found, hother, hanswer, hlast⟩)
    · cases hfound.hfind.symm.trans hnone
    · obtain ⟨rfl, rfl⟩ := hother.unique hfound
      exact ⟨⟨found, hanswer⟩, hlast⟩
  · rintro ⟨⟨other, hanswer⟩, hlast⟩
    have hdentry := hfound.hdentry
    rw [hanswer] at hdentry
    have hsame : other = inode := Option.some.inj hdentry
    exact Or.inr ⟨node, inode, hfound, by rw [hanswer, hsame], hlast⟩

/-- A handle that is in the table is not safe when nothing is resolved for it. -/
theorem not_lookupSafe_of_unresolved {nodes : List Node} {args : LookupArgs} {env : LookupEnv} {node : Node}
    (hfind : findNode nodes (args.fh.ino args.after) = some node)
    (hnever : ∀ inode, ¬ LookupResolved nodes args env node inode) : ¬ LookupSafe nodes args env := by
  rintro (hnone | ⟨other, inode, hother, -⟩)
  · cases hfind.symm.trans hnone
  · obtain rfl : node = other := Option.some.inj (hfind.symm.trans hother.hfind)
    exact hnever inode hother

theorem lookup_sound_iff (head : Head) (args : LookupArgs) (env : LookupEnv) :
    (serve head (.lookup args env)).Sound ↔ StatusSafe head (.lookup args env) := by
  simp only [serve, StatusSafe]
  cases head with
  | none =>
      refine iff_of_false (Served.not_sound_of_none rfl) ?_
      rintro ⟨nodes, hnone, -⟩
      cases hnone
  | some nodes =>
      simp only [Option.some.injEq, exists_eq_left']
      cases lookup_exit nodes args zeroFh env with
      | unknown hfind hstatus _ hcalls =>
          refine iff_of_true (Served.sound_of_ok hstatus ?_) (Or.inl hfind)
          intro call hcall
          rw [Outcome.served, hcalls] at hcall
          cases hcall
      | noPath node hfind hpath hstatus _ =>
          refine iff_of_false (Served.not_sound_of_not_isStat hstatus not_isStat_neg_vsnfserr_nospc) ?_
          refine not_lookupSafe_of_unresolved hfind fun inode hresolved => ?_
          cases hpath.symm.trans hresolved.hpath
      | noNd node hfind hpath hnd hstatus _ =>
          refine iff_of_false (Served.not_sound_of_not_isStat hstatus not_isStat_neg_vsnfserr_nospc) ?_
          refine not_lookupSafe_of_unresolved hfind fun inode hresolved => ?_
          cases hnd.symm.trans hresolved.hnd
      | noDentry node hfind hpath hnd hdentry hstatus _ =>
          refine iff_of_false (Served.not_sound_of_none hstatus) ?_
          refine not_lookupSafe_of_unresolved hfind fun inode hresolved => ?_
          cases hdentry.symm.trans hresolved.hdentry
      | known node inode hfound hknown hstatus _ _ _ hcalls =>
          rw [Served.sound_word_iff hstatus hcalls, lookupSafe_iff_of_resolved hfound]
          simp only [hknown, true_or, and_true]
      | noNode node inode hfound hknown hnode hstatus _ =>
          rw [lookupSafe_iff_of_resolved hfound]
          refine iff_of_false (Served.not_sound_of_none hstatus) ?_
          simp [hknown, hnode]
      | noNodePath node inode hfound hknown hnode hnodePath hstatus _ =>
          rw [lookupSafe_iff_of_resolved hfound]
          refine iff_of_false (Served.not_sound_of_not_isStat hstatus not_isStat_neg_vsnfserr_nospc) ?_
          simp [hknown, hnodePath]
      | added node inode hfound hknown hnode hnodePath hstatus _ _ _ hcalls =>
          rw [Served.sound_word_iff hstatus hcalls, lookupSafe_iff_of_resolved hfound]
          simp only [hnode, hnodePath, and_self, or_true, and_true]

/-- READDIR and READ open by handle and then make one call, whose error number they translate. -/
theorem opened_sound_iff {File : Type} (head : Head) (fh : VsnfsFh) (after : List Byte)
    (env : OpenEnv File) (served : Served)
    (hclosed : (vsnfsdOpen head fh after env).file = none →
      served.status = (vsnfsdOpen head fh after env).status)
    (hopen : ∀ file, (vsnfsdOpen head fh after env).file = some file → ∃ ret call,
      (call.Failed ↔ ret < 0) ∧ served.calls = (vsnfsdOpen head fh after env).calls ++ [call] ∧
      served.status = if ret < 0 then some (vsnfserrno ret) else (vsnfsdOpen head fh after env).status) :
    served.Sound ↔ env.pathAlloc = false ∨ fh.ino after = 0 ∨ head ≠ none := by
  cases open_exit head fh after env with
  | noMemory hpath hstatus hfile =>
      exact iff_of_true (Served.sound_of_error ((hclosed hfile).trans hstatus) (by decide)) (Or.inl hpath)
  | stopped hpath hino hhead hstatus hfile =>
      refine iff_of_false (Served.not_sound_of_none ((hclosed hfile).trans hstatus)) ?_
      rintro (hfalse | hzero | hsome)
      · cases hpath.symm.trans hfalse
      · exact hino hzero
      · exact hsome hhead
  | noEntry hwalk hstatus hfile =>
      exact iff_of_true (Served.sound_of_error ((hclosed hfile).trans hstatus) (by decide)) (Or.inr hwalk)
  | refused hwalk hstatus hfile =>
      exact iff_of_true (Served.sound_of_error ((hclosed hfile).trans hstatus) (by decide)) (Or.inr hwalk)
  | opened file hwalk hstatus hfile hcalls =>
      obtain ⟨ret, call, hfailed, hlist, hret⟩ := hopen file hfile
      refine iff_of_true ?_ (Or.inr hwalk)
      by_cases hneg : ret < 0
      · rw [if_pos hneg] at hret
        exact ⟨vsnfserrno ret, hret, isStat_vsnfserrno ret,
          fun _ => vsnfserrno_ne_zero (Int.ne_of_lt hneg)⟩
      · rw [if_neg hneg, hstatus] at hret
        refine Served.sound_of_ok hret ?_
        intro other hother
        rw [hlist] at hother
        rcases List.mem_append.mp hother with hother | hother
        · exact hcalls other hother
        · rw [List.mem_singleton.mp hother, hfailed]
          exact hneg

theorem readdir_sound_iff (head : Head) (args : ReaddirArgs) (env : ReaddirEnv) :
    (serve head (.readdir args env)).Sound ↔ StatusSafe head (.readdir args env) := by
  apply opened_sound_iff head args.fh args.after env.opening
  · intro hfile
    simp only [serve, Outcome.served, vsnfsdProcReaddir, vsnfsdReaddir, hfile]
  · intro file hfile
    refine ⟨env.ret, .vfsReaddir env.ret, Iff.rfl, ?_, ?_⟩
    · simp only [serve, Outcome.served, vsnfsdProcReaddir, vsnfsdReaddir, hfile]
      split <;> rfl
    · simp only [serve, Outcome.served, vsnfsdProcReaddir, vsnfsdReaddir, hfile]
      split <;> rfl

theorem read_sound_iff (head : Head) (args : ReadArgs) (env : ReadEnv) :
    (serve head (.read args env)).Sound ↔ StatusSafe head (.read args env) := by
  apply opened_sound_iff head args.fh args.after env.opening
  · intro hfile
    simp only [serve, Outcome.served, vsnfsdProcRead, vsnfsdRead, hfile]
  · intro file hfile
    refine ⟨(env.vfsRead file args.count env.stack.toInt).ret, .vfsRead _, Iff.rfl, ?_, ?_⟩
    · simp only [serve, Outcome.served, vsnfsdProcRead, vsnfsdRead, hfile]
      split <;> rfl
    · simp only [serve, Outcome.served, vsnfsdProcRead, vsnfsdRead, hfile]
      split
      · rw [if_neg (by omega)]
        rfl
      · rw [if_pos (by omega)]

/-- **Statuses on the wire.** The client reads a protocol status, and an error after every failed
call, exactly on the exits listed in `StatusSafe`. -/
theorem wire_status_sound_iff (svc : SvcRes) (head : Head) (event : Event) :
    SoundStatus svc head event ↔ StatusSafe head event := by
  rw [soundStatus_iff]
  cases event with
  | null dummy =>
      refine iff_of_true (Served.sound_of_ok rfl ?_) trivial
      intro call hcall
      cases hcall
  | getroot args env => exact getroot_sound_iff head args env
  | lookup args env => exact lookup_sound_iff head args env
  | readdir args env => exact readdir_sound_iff head args env
  | read args env => exact read_sound_iff head args env

/-- A mount of a path that does not exist: the client reads the swapped error number. -/
theorem missing_mount_status_unsound :
    wireStatus ⟨0, [], 0⟩ none
        (mountOf 0x61 (by decide) (.failed ⟨-enoent, by decide, by decide⟩ (some ⟨6, .dir⟩))) =
      some 0xfeffffff ∧
    ¬ SoundStatus ⟨0, [], 0⟩ none
        (mountOf 0x61 (by decide) (.failed ⟨-enoent, by decide, by decide⟩ (some ⟨6, .dir⟩))) := by
  refine ⟨?_, ?_⟩
  · rw [wireStatus_eq]
    decide
  · rw [soundStatus_iff, mountOf, getroot_sound_iff]
    rintro ⟨-, ⟨root, hfound, -⟩, -⟩
    cases hfound

end Vsnfs
