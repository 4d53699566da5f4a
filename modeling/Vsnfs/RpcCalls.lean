import Vsnfs.ClientLookup
import Vsnfs.LookupObjects
import Vsnfs.ServerWalks

/-! A remote call as a whole: the client's stub encodes the arguments, the server decodes them from its
memory, runs the handler and encodes the result, and the stub decodes that. The client translates the
status by its own table, two rows of which take an error for a success; what the handlers can return
stays clear of these rows, so a stub returns 0 exactly after `vsnfs_ok`. -/

namespace Vsnfs

open Base

/-! ### A call on the wire -/

/-- The kernel's answers to the request that is served next, whichever it is. -/
structure Kernel where
  getroot : GetrootEnv
  lookup : LookupEnv
  readdir : ReaddirEnv
  read : ReadEnv

def SvcArgs.event (kernel : Kernel) : SvcArgs → Event
  | .null dummy => .null dummy
  | .getroot args => .getroot args kernel.getroot
  | .lookup args => .lookup args kernel.lookup
  | .readdir args => .readdir args kernel.readdir
  | .read args => .read args kernel.read

/-- The procedure number of a call and its encoded arguments. -/
structure RpcMessage where
  proc : Nat
  body : List Byte
  deriving DecidableEq

def ClientArgs.message (rephdr : Nat) (args : ClientArgs) : RpcMessage := ⟨args.proc, args.encode rephdr⟩

/-- What the server has at hand when a call arrives: the head of the reply so far, the memory that holds
the call, what lies behind the decoded arguments, and the kernel's answers. -/
structure Arrival where
  svc : SvcRes
  mem : Nat → Byte
  after : List Byte
  kernel : Kernel

/-- The results of a call that the dispatcher reports as a success: what stands behind the old head. -/
def Dispatched.results {Res : Type} (svc : SvcRes) (out : Dispatched Res) : Option (List Byte) :=
  if out.statp = .success then some (out.svc.head.drop svc.head.length) else none

def resultsOf (svc : SvcRes) (head : Head) : Event → Option (List Byte)
  | .null dummy => (dispatchNull svc head (some dummy)).bind (Dispatched.results svc)
  | .getroot args env => (dispatchGetroot svc head (some args) env).bind (Dispatched.results svc)
  | .lookup args env => (dispatchLookup svc head (some args) env).bind (Dispatched.results svc)
  | .readdir args env => (dispatchReaddir svc head (some args) env).bind (Dispatched.results svc)
  | .read args env => (dispatchRead svc head (some args) env).bind (Dispatched.results svc)

/-- One call at the server. There are no results when the arguments were not decoded, when the handler was
stopped, and from a server that is down. -/
def serveCall (arrival : Arrival) (server : Server) (message : RpcMessage) : Server × Option (List Byte) :=
  match pcDecode message.proc arrival.mem message.body.length arrival.after with
  | none => (server, none)
  | some args =>
      if server.down then (server, none)
      else
        (step server (args.event arrival.kernel),
          resultsOf arrival.svc server.head (args.event arrival.kernel))

/-! ### The other stubs of the client -/

/-- `stack` is what the local result record held, `output` what the caller's variable holds. -/
def vsnfsProcNull (rpc : List Byte → List Byte) (input stack output : Word) : Option (Int × Word) :=
  match vsnfsXdrNullres (rpc (vsnfsXdrNullargs input)) stack with
  | none => none
  | some (status, dummy) => some (status, if status = 0 then dummy else output)

def vsnfsProcGetroot (rpc : List Byte → List Byte) (path : List Byte) (fh : VsnfsFh) : Option (Int × VsnfsFh) :=
  vsnfsXdrFh (rpc (vsnfsXdrGetrootargs path)) fh

def vsnfsProcReaddir (rpc : List Byte → List Byte) (rephdr : Nat) (fh : VsnfsFh) (count : Word) : Option Int :=
  vsnfsXdrReaddirres (rpc (vsnfsXdrReaddirargs rephdr fh count).1)

/-! ### Arrival -/

/-- The server finds in its memory what the client sent. -/
theorem pcDecode_message {mem : Nat → Byte} {rephdr : Nat} {args : ClientArgs}
    (hmem : HoldsAt mem 0 (args.encode rephdr)) (after : List Byte) :
    pcDecode args.proc mem (args.encode rephdr).length after = some (args.received after) := by
  obtain ⟨hsize, front, pad, hbytes, hwire⟩ := args.encode_wire rephdr after
  rw [hbytes, holdsAt_append] at hmem
  exact (pcDecode_eq_some_iff mem (args.encode rephdr).length after args.proc _).mpr
    ⟨front, hwire, hmem.1, hsize.le⟩

theorem serveCall_message {arrival : Arrival} {server : Server} {rephdr : Nat} {args : ClientArgs}
    (hmem : HoldsAt arrival.mem 0 (args.encode rephdr)) (hup : server.down = false) :
    serveCall arrival server (args.message rephdr) =
      (step server ((args.received arrival.after).event arrival.kernel),
        resultsOf arrival.svc server.head ((args.received arrival.after).event arrival.kernel)) := by
  simp only [serveCall, ClientArgs.message, pcDecode_message hmem, hup, Bool.false_eq_true, if_false]

/-! ### Results -/

section Results

variable {Args Res : Type}

/-- The results of one row: the status, and behind `vsnfs_ok` what the encoder adds, when it finds room. -/
theorem dispatch_results (svc : SvcRes) (args : Args) (func : Args → Outcome Res)
    (encode : SvcRes → Res → SvcRes × Res × Bool) (body : Res → List Byte)
    (hbody : ∀ svc resp, (encode svc resp).1.head = svc.head ++ body resp)
    (hroom : (encode (svc.emit (leBytes 0)) (func args).resp).2.2 = true) :
    (vsnfsdDispatch svc (some args) func encode).bind (Dispatched.results svc) =
      (func args).status.map fun status =>
        leBytes status ++ if status = vsnfserr .ok then body (func args).resp else [] := by
  rw [vsnfsdDispatch]
  cases (func args).status with
  | none => rfl
  | some status =>
      simp only [vsnfserr_ok, Option.map_some]
      by_cases hok : status = 0
      · rw [if_pos hok, if_pos hok, hok]
        simp only [hroom, if_true, Option.bind_some, Dispatched.results, hbody]
        simp only [SvcRes.emit, List.append_assoc, List.drop_left]
      · rw [if_neg hok, if_neg hok, List.append_nil]
        simp only [Option.bind_some, Dispatched.results, if_true, SvcRes.emit, List.drop_left]

end Results

/-- There is room for the longest result that is written to the head: a status, the data of a handle and
its type. -/
def HeadRoom (svc : SvcRes) : Prop := svc.head.length + 16 ≤ pageSize

instance (svc : SvcRes) : Decidable (HeadRoom svc) := inferInstanceAs (Decidable (_ ≤ _))

/-- What behind the status a call has in its results after `vsnfs_ok`. -/
def resultBody (head : Head) : Event → List Byte
  | .null dummy => leBytes (htonl (vsnfsdProcNull head dummy).resp)
  | .getroot args env => serverHandleBytes (vsnfsdProcGetroot head args zeroFh env).resp
  | .lookup args env => serverHandleBytes (vsnfsdProcLookup head args zeroFh env).resp
  | .readdir _ _ => []
  | .read args env => leBytes (htonl ((vsnfsdProcRead head args env).resp.count.setWidth 32))

section Room

variable {svc : SvcRes} (hroom : HeadRoom svc) (head : Head)

include hroom

theorem fits_of_room (bytes : List Byte) (hbytes : bytes.length ≤ 12) :
    xdrRessizeCheck ((svc.emit (leBytes 0)).emit bytes) = true := by
  have hlength : svc.head.length + 16 ≤ pageSize := hroom
  simp only [xdrRessizeCheck, SvcRes.emit, List.length_append, leBytes_length, decide_eq_true_eq]
  omega

theorem encodeFhandle_fits (fh : VsnfsFh) : (vsnfssvcEncodeFhandle (svc.emit (leBytes 0)) fh).2 = true := by
  have hfits := fits_of_room hroom (serverHandleBytes fh) (by
    rw [serverHandleBytes, encodeFh, List.length_append, fh.hdata, leBytes_length])
  simp only [vsnfssvcEncodeFhandle, SvcRes.emit, List.append_assoc] at hfits ⊢
  exact hfits

theorem handle_results {Args : Type} (args : Args) (func : Args → Outcome VsnfsFh) :
    (vsnfsdDispatch svc (some args) func (headEncoder vsnfssvcEncodeFhandle)).bind (Dispatched.results svc) =
      (func args).status.map fun status =>
        leBytes status ++ if status = vsnfserr .ok then serverHandleBytes (func args).resp else [] :=
  dispatch_results svc args func (headEncoder vsnfssvcEncodeFhandle) serverHandleBytes
    (fun _ resp => List.append_assoc _ (encodeFh resp) (leBytes (htonl resp.type)))
    (encodeFhandle_fits hroom _)

/-- **The results of a call**: the handler's status, and behind `vsnfs_ok` its result. -/
theorem resultsOf_eq (event : Event) :
    resultsOf svc head event = (serve head event).status.map fun status =>
      leBytes status ++ if status = vsnfserr .ok then resultBody head event else [] := by
  cases event with
  | null dummy =>
      exact dispatch_results svc dummy (vsnfsdProcNull head) (headEncoder vsnfssvcEncodeNullres)
        (fun resp => leBytes (htonl resp)) (fun _ _ => rfl) (fits_of_room hroom _ (by rw [leBytes_length]; decide))
  | getroot args env => exact handle_results hroom args fun args => vsnfsdProcGetroot head args zeroFh env
  | lookup args env => exact handle_results hroom args fun args => vsnfsdProcLookup head args zeroFh env
  | readdir args env =>
      exact dispatch_results svc args (fun args => vsnfsdProcReaddir head args env) vsnfssvcEncodeReaddirres
        (fun _ => []) (fun _ _ => (List.append_nil _).symm) rfl
  | read args env =>
      exact dispatch_results svc args (fun args => vsnfsdProcRead head args env)
        (headEncoder fun svc res => vsnfssvcEncodeReadres svc res.count)
        (fun resp => leBytes (htonl (resp.count.setWidth 32))) (fun _ _ => rfl)
        (fits_of_room hroom _ (by rw [leBytes_length]; decide))

end Room

/-! ### Statuses -/

/-- The client takes the status for a success exactly when it is one. -/
def ReadTruly (status : Word) : Prop :=
  vsnfsStatToErrno (ntohl status).toInt = 0 ↔ status = vsnfserr .ok

/-- No host error is below `-MAX_ERRNO`. -/
def SmallErrnos (pathLookup : List Byte → PathLookup) : Prop := ∀ text, -4095 ≤ (pathLookup text).errno

theorem readTruly_of_not_subtracted {status : Word} (h : (ntohl status).toInt ∉ subtractedStatuses) :
    ReadTruly status := by
  rw [ReadTruly, ((statusSigned_iff (ntohl status)).mpr h).1, vsnfserr_ok]
  exact htonl_eq_zero_iff status

theorem readTruly_of_isStat {status : Word} (h : IsStat (ntohl status)) : ReadTruly status := by
  obtain ⟨stat, hstat⟩ := h
  apply readTruly_of_not_subtracted
  rw [hstat]
  cases stat <;> decide

/-- The word of a host error is far from the two statuses that the client takes for a success. -/
theorem PathLookup.readTruly {answer : PathLookup} (hsmall : -4095 ≤ answer.errno) :
    ReadTruly answer.word := by
  apply readTruly_of_not_subtracted
  intro hmem
  cases answer with
  | found inode =>
      have hzero : (PathLookup.found inode).word = 0 := rfl
      rw [hzero] at hmem
      exact absurd hmem (by decide)
  | failed failure stale =>
      have hneg := failure.hneg
      have herrno : -4095 ≤ failure.errno := hsmall
      have hnat : (BitVec.ofInt 32 failure.errno).toNat = (2 ^ 32 + failure.errno).toNat := by
        rw [BitVec.toNat_ofInt]
        omega
      have hstatus : ∀ stat ∈ subtractedStatuses, (htonl (BitVec.ofInt 32 stat)).toNat < 2 ^ 32 - 4095 := by
        decide
      have hword : BitVec.ofInt 32 failure.errno =
          htonl (BitVec.ofInt 32 (ntohl (PathLookup.failed failure stale).word).toInt) := by
        rw [BitVec.ofInt_toInt, htonl_htonl]
        rfl
      have hlt := hstatus _ hmem
      rw [← hword, hnat] at hlt
      omega

theorem getroot_readTruly {head : Head} {args : GetrootArgs} {env : GetrootEnv} {status : Word}
    (hsmall : SmallErrnos env.pathLookup)
    (hstatus : (vsnfsdProcGetroot head args zeroFh env).status = some status) : ReadTruly status := by
  cases getroot_exit head args zeroFh env with
  | noMemory _ h =>
      cases h.symm.trans hstatus
      exact readTruly_of_not_subtracted (by decide)
  | noDentry _ _ h => cases h.symm.trans hstatus
  | notDir _ _ _ _ h =>
      cases h.symm.trans hstatus
      exact readTruly_of_not_subtracted (by decide)
  | noNode _ _ _ _ _ h => cases h.symm.trans hstatus
  | noNodePath _ _ _ _ _ _ h =>
      cases h.symm.trans hstatus
      exact readTruly_of_not_subtracted (by decide)
  | added _ _ _ _ _ _ h =>
      cases h.symm.trans hstatus
      exact PathLookup.readTruly (hsmall _)

theorem lookup_readTruly {head : Head} {args : LookupArgs} {env : LookupEnv} {status : Word}
    (hsmall : SmallErrnos env.pathLookup)
    (hstatus : (vsnfsdProcLookup head args zeroFh env).status = some status) : ReadTruly status := by
  cases head with
  | none => cases hstatus
  | some nodes =>
      cases lookup_exit nodes args zeroFh env with
      | unknown _ h =>
          cases h.symm.trans hstatus
          exact readTruly_of_isStat (isStat_vsnfserr .ok)
      | noPath _ _ _ h =>
          cases h.symm.trans hstatus
          exact readTruly_of_not_subtracted (by decide)
      | noNd _ _ _ _ h =>
          cases h.symm.trans hstatus
          exact readTruly_of_not_subtracted (by decide)
      | noDentry _ _ _ _ _ h => cases h.symm.trans hstatus
      | known _ _ _ _ h =>
          cases h.symm.trans hstatus
          exact PathLookup.readTruly (hsmall _)
      | noNode _ _ _ _ _ h => cases h.symm.trans hstatus
      | noNodePath _ _ _ _ _ _ h =>
          cases h.symm.trans hstatus
          exact readTruly_of_not_subtracted (by decide)
      | added _ _ _ _ _ _ h =>
          cases h.symm.trans hstatus
          exact PathLookup.readTruly (hsmall _)

/-- READDIR and READ answer with a protocol status unless they walk the zeroed head. -/
theorem opening_readTruly {File : Type} {head : Head} {fh : VsnfsFh} {after : List Byte} {env : OpenEnv File}
    {served : Served} {status : Word} (hstatus : served.status = some status)
    (hsound : served.Sound ↔ env.pathAlloc = false ∨ fh.ino after = 0 ∨ head ≠ none)
    (hstopped : served.status = none ↔ OpenWalksZeroed head fh after env) : ReadTruly status := by
  have hwalks : ¬ OpenWalksZeroed head fh after env := by
    rw [← hstopped, hstatus]
    simp
  rw [openWalksZeroed_iff] at hwalks
  have hsafe : env.pathAlloc = false ∨ fh.ino after = 0 ∨ head ≠ none := by
    by_contra hnone
    simp only [not_or, Bool.not_eq_false, not_not] at hnone
    exact hwalks ⟨hnone.2.2, hnone.1, hnone.2.1⟩
  obtain ⟨other, hother, hstat, -⟩ := hsound.mpr hsafe
  obtain rfl := Option.some.inj (hstatus.symm.trans hother)
  exact readTruly_of_isStat hstat

/-- **No handler returns what the client takes for a success**, but for `vsnfs_ok`. -/
theorem serve_readTruly {head : Head} {event : Event} {status : Word}
    (hsmall : ∀ pathLookup ∈ event.pathLookup, SmallErrnos pathLookup)
    (hstatus : (serve head event).status = some status) : ReadTruly status := by
  cases event with
  | null dummy =>
      cases hstatus
      exact readTruly_of_isStat (isStat_vsnfserr .ok)
  | getroot args env => exact getroot_readTruly (hsmall _ rfl) hstatus
  | lookup args env => exact lookup_readTruly (hsmall _ rfl) hstatus
  | readdir args env =>
      exact opening_readTruly hstatus (readdir_sound_iff head args env) (readdir_stopped_iff head args env)
  | read args env =>
      exact opening_readTruly hstatus (read_sound_iff head args env) (read_stopped_iff head args env)

/-! ### What a stub returns -/

/-- What a stub returns for a handler's status and result: 0 exactly after `vsnfs_ok`, and then the result;
otherwise a negative error number, and the caller's memory is as it was. -/
structure Relayed {Res : Type} (status : Option Word) (resp old : Res) (answer : Int × Res) : Prop where
  zero : answer.1 = 0 ↔ status = some (vsnfserr .ok)
  nonpos : answer.1 ≤ 0
  result : answer.2 = if answer.1 = 0 then resp else old

theorem relayed_of_readTruly {Res : Type} {status : Word} (htruly : ReadTruly status) (resp old : Res) :
    Relayed (some status) resp old
      (if status = vsnfserr .ok then (0, resp) else (vsnfsStatToErrno (ntohl status).toInt, old)) := by
  by_cases hok : status = vsnfserr .ok
  · rw [if_pos hok]
    exact ⟨iff_of_true rfl (congrArg some hok), Int.le_refl 0, (if_pos rfl).symm⟩
  · rw [if_neg hok]
    have hne : vsnfsStatToErrno (ntohl status).toInt ≠ 0 := fun hzero => hok (htruly.mp hzero)
    refine ⟨iff_of_false hne fun h => hok (Option.some.inj h), vsnfsStatToErrno_nonpos _, ?_⟩
    exact (if_neg hne).symm

theorem replyStatus_word (status : Word) (body : List Byte) :
    replyStatus (leBytes status ++ body) = some ((ntohl status).toInt, body) := by
  rw [replyStatus, take32_leBytes]

/-- A status of zero on the wire is `vsnfs_ok`. -/
theorem ntohl_toInt_eq_zero_iff (status : Word) : (ntohl status).toInt = 0 ↔ status = vsnfserr .ok := by
  rw [vsnfserr_ok, ← htonl_eq_zero_iff status]
  exact (word_eq_ok_iff (ntohl status)).symm

section Stubs

variable (status : Word)

theorem vsnfsXdrFh_results (resp old : VsnfsFh) :
    vsnfsXdrFh (leBytes status ++ if status = vsnfserr .ok then serverHandleBytes resp else []) old =
      some (if status = vsnfserr .ok then (0, resp) else (vsnfsStatToErrno (ntohl status).toInt, old)) := by
  have hzero := ntohl_toInt_eq_zero_iff status
  rw [vsnfsXdrFh, replyStatus_word]
  by_cases hok : status = vsnfserr .ok
  · have hread := client_reads_server resp []
    rw [List.append_nil] at hread
    simp only [hzero.mpr hok, ne_eq, not_true_eq_false, if_false, if_pos hok, hread]
  · simp only [ne_eq, mt hzero.mp hok, not_false_eq_true, if_true, if_neg hok]

theorem vsnfsXdrNullres_results (resp old : Word) :
    vsnfsXdrNullres (leBytes status ++ if status = vsnfserr .ok then leBytes (htonl resp) else []) old =
      some (if status = vsnfserr .ok then (0, resp) else (vsnfsStatToErrno (ntohl status).toInt, old)) := by
  have hzero := ntohl_toInt_eq_zero_iff status
  rw [vsnfsXdrNullres, replyStatus_word]
  by_cases hok : status = vsnfserr .ok
  · have hread := take32_leBytes (htonl resp) []
    rw [List.append_nil] at hread
    simp only [hzero.mpr hok, ne_eq, not_true_eq_false, if_false, if_pos hok, hread, htonl_htonl]
  · simp only [ne_eq, mt hzero.mp hok, not_false_eq_true, if_true, if_neg hok]

/-- READDIR and READ hand on the status alone. -/
theorem statusOnly_results (body : List Byte) :
    (vsnfsXdrReaddirres (leBytes status ++ body) =
      some (if status = vsnfserr .ok then 0 else vsnfsStatToErrno (ntohl status).toInt)) ∧
    ∀ stack, ∃ count, vsnfsProcRead (leBytes status ++ body) stack =
      some (if status = vsnfserr .ok then 0 else vsnfsStatToErrno (ntohl status).toInt, count) := by
  have hzero := ntohl_toInt_eq_zero_iff status
  by_cases hok : status = vsnfserr .ok
  · simp only [vsnfsXdrReaddirres, vsnfsProcRead, vsnfsXdrReadres, replyStatus_word, hzero.mpr hok, ne_eq,
      not_true_eq_false, if_false, if_pos hok]
    exact ⟨trivial, fun stack => ⟨_, rfl⟩⟩
  · simp only [vsnfsXdrReaddirres, vsnfsProcRead, vsnfsXdrReadres, replyStatus_word, ne_eq, mt hzero.mp hok,
      not_false_eq_true, if_true, if_neg hok]
    exact ⟨trivial, fun stack => ⟨_, rfl⟩⟩

end Stubs

/-- The stub of a call, on these results, returns what the handler returned. READDIR's entries are on the
page and READ's count is not taken from the reply, so these two are judged by the status. -/
def StubReturns (server : Server) (arrival : Arrival) (rephdr : Nat) (results : List Byte) :
    ClientArgs → Prop
  | .nullargs dummy => ∀ stack output, ∃ answer,
      vsnfsProcNull (fun _ => results) dummy stack output = some answer ∧
        Relayed (vsnfsdProcNull server.head dummy).status (dummy + 1) output answer
  | .getrootargs path =>
      let out := vsnfsdProcGetroot server.head ⟨path⟩ zeroFh arrival.kernel.getroot
      ∀ old, ∃ answer, vsnfsProcGetroot (fun _ => results) path.bytes old = some answer ∧
        Relayed out.status out.resp old answer
  | .lookupargs fh filename =>
      let out := vsnfsdProcLookup server.head ⟨fh, arrival.after, filename⟩ zeroFh arrival.kernel.lookup
      ∀ old, ∃ answer, vsnfsProcLookup (fun _ => results) fh filename.bytes old = some answer ∧
        Relayed out.status out.resp old answer
  | .readdirargs fh count => ∃ errno, vsnfsProcReaddir (fun _ => results) rephdr fh count = some errno ∧
      Relayed (serve server.head
        (((ClientArgs.readdirargs fh count).received arrival.after).event arrival.kernel)).status () () (errno, ())
  | .readargs fh offset length => ∀ stack, ∃ errno count, vsnfsProcRead results stack = some (errno, count) ∧
      Relayed (serve server.head
        (((ClientArgs.readargs fh offset length).received arrival.after).event arrival.kernel)).status () ()
          (errno, ())

/-- The stub on the results of a handler whose status the client reads truly. -/
theorem stubReturns_of_status {server : Server} {arrival : Arrival} {rephdr : Nat} {args : ClientArgs}
    {status : Word}
    (hstatus : (serve server.head ((args.received arrival.after).event arrival.kernel)).status = some status)
    (htruly : ReadTruly status) :
    StubReturns server arrival rephdr (leBytes status ++ if status = vsnfserr .ok then
      resultBody server.head ((args.received arrival.after).event arrival.kernel) else []) args := by
  cases args with
  | nullargs dummy =>
      intro stack output
      cases hstatus
      refine ⟨(0, dummy + 1), ?_, iff_of_true rfl rfl, Int.le_refl 0, rfl⟩
      have hread := vsnfsXdrNullres_results (vsnfserr .ok) (vsnfsdProcNull server.head dummy).resp stack
      rw [if_pos rfl, if_pos rfl] at hread
      simp only [vsnfsProcNull, resultBody, ClientArgs.received, SvcArgs.event, if_true, hread]
      rfl
  | getrootargs path =>
      intro old
      refine ⟨_, vsnfsXdrFh_results status _ old, ?_⟩
      have hrelayed := relayed_of_readTruly htruly
        (vsnfsdProcGetroot server.head ⟨path⟩ zeroFh arrival.kernel.getroot).resp old
      rw [← hstatus] at hrelayed
      exact hrelayed
  | lookupargs fh filename =>
      intro old
      refine ⟨_, vsnfsXdrFh_results status _ old, ?_⟩
      have hrelayed := relayed_of_readTruly htruly
        (vsnfsdProcLookup server.head ⟨fh, arrival.after, filename⟩ zeroFh arrival.kernel.lookup).resp old
      rw [← hstatus] at hrelayed
      exact hrelayed
  | readdirargs fh count =>
      refine ⟨_, (statusOnly_results status _).1, ?_⟩
      have hrelayed := relayed_of_readTruly htruly () ()
      rw [hstatus]
      split <;> rename_i hok <;> simpa only [hok, if_true, if_false] using hrelayed
  | readargs fh offset length =>
      intro stack
      obtain ⟨count, hread⟩ := (statusOnly_results status _).2 stack
      refine ⟨_, count, hread, ?_⟩
      have hrelayed := relayed_of_readTruly htruly () ()
      rw [hstatus]
      split <;> rename_i hok <;> simpa only [hok, if_true, if_false] using hrelayed

/-- **A remote call is a call of the handler.** Whatever the state of the server, the kernel's answers and
the memory around the message, the server steps as the handler steps; there is a reply unless the handler
was stopped, and the stub then returns the handler's status, as success or failure, and its result. -/
theorem remote_call_is_handler_call (server : Server) (arrival : Arrival) (rephdr : Nat) (args : ClientArgs)
    (hup : server.down = false) (hmem : HoldsAt arrival.mem 0 (args.encode rephdr))
    (hroom : HeadRoom arrival.svc)
    (hsmall : ∀ pathLookup ∈ ((args.received arrival.after).event arrival.kernel).pathLookup,
      SmallErrnos pathLookup) :
    (serveCall arrival server (args.message rephdr)).1 =
        step server ((args.received arrival.after).event arrival.kernel) ∧
      match (serveCall arrival server (args.message rephdr)).2 with
      | none => (serve server.head ((args.received arrival.after).event arrival.kernel)).status = none
      | some results => StubReturns server arrival rephdr results args := by
  rw [serveCall_message hmem hup]
  refine ⟨rfl, ?_⟩
  simp only [resultsOf_eq hroom]
  cases hstatus : (serve server.head ((args.received arrival.after).event arrival.kernel)).status with
  | none => rfl
  | some status => exact stubReturns_of_status hstatus (serve_readTruly hsmall hstatus)

/-! ### One call -/

/-- A kernel with memory for everything that gives one answer to every path lookup and has no file to
open. -/
def Kernel.answering (answer : PathLookup) : Kernel where
  getroot := GetrootEnv.answering answer
  lookup := LookupEnv.answering answer
  readdir := ⟨⟨true, [], fun _ => .error .noEntry⟩, [], none, []⟩
  read := ⟨⟨true, [], fun _ => .error .noEntry⟩, fun _ _ _ => ⟨0, [], 0⟩, [], 0⟩

/-- A message alone in memory, with nothing in the reply yet. -/
def Arrival.of (message : RpcMessage) (kernel : Kernel) : Arrival := ⟨⟨0, [], 0⟩, memOf message.body, [], kernel⟩

/-- A LOOKUP in the mounted directory `/a`, which finds a file with the number 7. -/
theorem remote_lookup_of_file :
    ∃ results, (serveCall (Arrival.of ((ClientArgs.lookupargs (zeroFh.print 5) oneLetterName).message 0)
        (Kernel.answering (.found ⟨7, .reg⟩))) ⟨some [firstRoot], false⟩
        ((ClientArgs.lookupargs (zeroFh.print 5) oneLetterName).message 0)).2 = some results ∧
      ∀ old, vsnfsProcLookup (fun _ => results) (zeroFh.print 5) oneLetterName.bytes old =
        some (0, lookupResp zeroFh ⟨7, .reg⟩) := by
  have hcall := remote_call_is_handler_call ⟨some [firstRoot], false⟩
    (Arrival.of ((ClientArgs.lookupargs (zeroFh.print 5) oneLetterName).message 0)
      (Kernel.answering (.found ⟨7, .reg⟩)))
    0 (.lookupargs (zeroFh.print 5) oneLetterName) rfl (memOf_holds _) (by decide) (by
      intro pathLookup hmem text
      cases hmem
      exact (by decide : (-4095 : Int) ≤ 0))
  obtain ⟨-, hreply⟩ := hcall
  split at hreply
  · exact absurd hreply (by decide)
  · rename_i results hresults
    refine ⟨results, hresults, fun old => ?_⟩
    obtain ⟨⟨errno, fh⟩, hstub, hrelayed⟩ := hreply old
    have hzero : errno = 0 := hrelayed.zero.mpr (by decide)
    have hfh := hrelayed.result
    simp only [hzero, if_true] at hfh
    rw [hstub, hzero, hfh]
    rfl

end Vsnfs
