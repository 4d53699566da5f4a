import Vsnfs.RequestCodec
import Vsnfs.ServerDispatch
import Vsnfs.ServerPaths

/-! Declared message sizes. The client's table says for each procedure how many words its arguments and
its results take, and the RPC layer makes its buffers that large. The sizes are written by hand beside
the encoders of one side and far from those of the other; here they are compared with the words that
the encoders write. -/

namespace Vsnfs

open Base

/-! ### The table -/

abbrev vsnfsFhandleSz : Nat := 8
abbrev vsnfsPathSz : Nat := 1 + (vsnfsMaxpathlen >>> 2)

abbrev vsnfsNullargsSz : Nat := 1
abbrev vsnfsGetrootargsSz : Nat := vsnfsPathSz
abbrev vsnfsLookupargsSz : Nat := vsnfsFhandleSz + vsnfsPathSz
abbrev vsnfsReaddirargsSz : Nat := vsnfsFhandleSz + 2
abbrev vsnfsReadargsSz : Nat := vsnfsFhandleSz + 3

abbrev vsnfsFhSz : Nat := 1 + vsnfsFhandleSz + 1
abbrev vsnfsNullresSz : Nat := 1
abbrev vsnfsReadresSz : Nat := 1 + 1

/-- The number and the sizes, in words, of a `struct rpc_procinfo`. -/
structure RpcProcinfo where
  pProc : Nat
  pArglen : Nat
  pReplen : Nat

/-- The rows of `vsnfs_procedures`, in source order. -/
def vsnfsProcedures : List RpcProcinfo :=
  [⟨vsnfsprocNull, vsnfsNullargsSz, vsnfsNullresSz⟩,
    ⟨vsnfsprocGetroot, vsnfsGetrootargsSz, vsnfsFhSz⟩,
    ⟨vsnfsprocLookup, vsnfsLookupargsSz, vsnfsFhSz⟩,
    ⟨vsnfsprocRead, vsnfsReadargsSz, vsnfsReadresSz⟩,
    ⟨vsnfsprocReaddir, vsnfsReaddirargsSz, vsnfsReaddirresSz⟩]

/-- The row a call is made with. -/
def ClientArgs.row (args : ClientArgs) : Option RpcProcinfo :=
  vsnfsProcedures.find? (fun row => row.pProc = args.proc)

/-! ### Requests -/

def ClientArgs.words (rephdr : Nat) (args : ClientArgs) : Nat := quadWords (args.encode rephdr).length

/-- The most bytes a name of this length takes, its length word included. The limit divided by four is
rounded down in the declared size, which is enough for a limit that is a multiple of four. -/
theorem name_size_le {bytes : List Byte} (h : bytes.length ≤ vsnfsMaxpathlen) :
    4 + 4 * quadWords bytes.length ≤ 4 * vsnfsPathSz := by
  rw [quadWords]
  change _ ≤ 4 * 257
  have hmax : bytes.length ≤ 1024 := h
  omega

theorem quadWords_le {count words : Nat} (h : count ≤ 4 * words) : quadWords count ≤ words := by
  rw [quadWords]
  omega

/-- The words of a request are those of the arguments that the server decodes from it. -/
theorem ClientArgs.words_eq (rephdr : Nat) (args : ClientArgs) :
    args.words rephdr = quadWords (args.received []).size := by
  rw [ClientArgs.words, (args.encode_wire rephdr []).1]

/-- The arguments of every call fit into the declared size. -/
theorem ClientArgs.words_le (rephdr : Nat) (args : ClientArgs) :
    ∃ row, args.row = some row ∧ args.words rephdr ≤ row.pArglen := by
  rw [ClientArgs.words_eq]
  cases args with
  | nullargs dummy => exact ⟨_, rfl, show quadWords 4 ≤ vsnfsNullargsSz by decide⟩
  | getrootargs path => exact ⟨_, rfl, quadWords_le (name_size_le path.hlength)⟩
  | lookupargs fh filename =>
      have hname : filename.bytes.length ≤ vsnfsMaxpathlen := filename.hlength.trans (by decide)
      refine ⟨_, rfl, quadWords_le ?_⟩
      calc 16 + 4 * quadWords filename.bytes.length
          = 12 + (4 + 4 * quadWords filename.bytes.length) := by omega
        _ ≤ 4 * vsnfsFhandleSz + 4 * vsnfsPathSz := Nat.add_le_add (by decide) (name_size_le hname)
        _ = 4 * vsnfsLookupargsSz := (Nat.mul_add _ _ _).symm
  | readdirargs fh count => exact ⟨_, rfl, show quadWords 16 ≤ vsnfsReaddirargsSz by decide⟩
  | readargs fh offset length => exact ⟨_, rfl, show quadWords 20 ≤ vsnfsReadargsSz by decide⟩

/-! ### Replies -/

/-- The number of the row of `vsnfsd_procedures1` that serves a request. -/
def Event.proc : Event → Nat
  | .null _ => vsnfsprocNull
  | .getroot _ _ => vsnfsprocGetroot
  | .lookup _ _ => vsnfsprocLookup
  | .readdir _ _ => vsnfsprocReaddir
  | .read _ _ => vsnfsprocRead

/-- The words the dispatcher and the encoder write behind what is in the head already. -/
def replyWords (svc : SvcRes) (head : Head) (event : Event) : Option Nat :=
  (replyHead svc head event).map fun bytes => quadWords (bytes.length - svc.head.length)

/-- The words of a successful result, its status included and a page not. -/
def Event.resultWords : Event → Nat
  | .null _ => 1 + 1
  | .getroot _ _ => 1 + quadWords vsnfsFhsize + 1
  | .lookup _ _ => 1 + quadWords vsnfsFhsize + 1
  | .readdir _ _ => 1
  | .read _ _ => 1 + 1

section Replies

variable {Args Res : Type}

/-- A result is encoded behind the status. -/
theorem dispatch_words_of_ok (svc : SvcRes) (args : Args) (func : Args → Outcome Res)
    (encode : SvcRes → Res → SvcRes × Res × Bool) (count : Nat)
    (hencode : ∀ svc resp, ∃ more, (encode svc resp).1.head = svc.head ++ more ∧ more.length = 4 * count)
    (hstatus : (func args).status = some 0) :
    ((vsnfsdDispatch svc (some args) func encode).map (fun out => out.svc.head)).map
        (fun bytes => quadWords (bytes.length - svc.head.length)) = some (1 + count) := by
  obtain ⟨more, hmore, hlength⟩ := hencode (svc.emit (leBytes 0)) (func args).resp
  have hhead : (svc.emit (leBytes 0)).head = svc.head ++ leBytes 0 := rfl
  simp only [vsnfsdDispatch, hstatus, if_true, Option.map_some, hmore, hhead, List.length_append,
    leBytes_length, hlength, Option.some.injEq, quadWords]
  omega

end Replies

theorem encodeFhandle_head (svc : SvcRes) (fh : VsnfsFh) :
    ∃ more, (headEncoder vsnfssvcEncodeFhandle svc fh).1.head = svc.head ++ more ∧
      more.length = 4 * (quadWords vsnfsFhsize + 1) := by
  refine ⟨encodeFh fh ++ leBytes (htonl fh.type), List.append_assoc _ _ _, ?_⟩
  rw [List.length_append, encodeFh, fh.hdata]
  rfl

/-- The words of the reply to a request that succeeds. -/
theorem replyWords_of_ok (svc : SvcRes) (head : Head) (event : Event)
    (hok : (serve head event).status = some 0) : replyWords svc head event = some event.resultWords := by
  cases event with
  | null dummy =>
      refine dispatch_words_of_ok svc dummy (vsnfsdProcNull head) (headEncoder vsnfssvcEncodeNullres) 1 ?_ hok
      exact fun _ resp => ⟨leBytes (htonl resp), rfl, rfl⟩
  | getroot args env =>
      exact dispatch_words_of_ok svc args _ _ _ encodeFhandle_head hok
  | lookup args env =>
      exact dispatch_words_of_ok svc args _ _ _ encodeFhandle_head hok
  | readdir args env =>
      apply dispatch_words_of_ok svc args _ _ 0 _ hok
      exact fun _ _ => ⟨[], (List.append_nil _).symm, rfl⟩
  | read args env =>
      apply dispatch_words_of_ok svc args _ _ 1 _ hok
      exact fun _ resp => ⟨leBytes (htonl (resp.count.setWidth 32)), rfl, rfl⟩

/-! ### Both sizes -/

/-- The declared sizes of a call cover its arguments and the reply to a request. -/
def SizesCover (rephdr : Nat) (args : ClientArgs) (svc : SvcRes) (head : Head) (event : Event) : Prop :=
  ∃ row, args.row = some row ∧ args.words rephdr ≤ row.pArglen ∧
    ∃ words, replyWords svc head event = some words ∧ words ≤ row.pReplen

/-- **Declared sizes.** For every call and every successful reply of its procedure, the declared sizes
cover what the encoders write exactly when the procedure is not NULL: the declared reply of NULL has no
word for the status. -/
theorem declared_sizes_cover_iff (rephdr : Nat) (args : ClientArgs) (svc : SvcRes) (head : Head)
    (event : Event) (hproc : event.proc = args.proc) (hok : wireStatus svc head event = some 0) :
    SizesCover rephdr args svc head event ↔ args.proc ≠ vsnfsprocNull := by
  have hstatus : (serve head event).status = some 0 := by
    rw [wireStatus_eq] at hok
    obtain ⟨status, hstatus, hzero⟩ := Option.map_eq_some_iff.mp hok
    rw [hstatus, (htonl_eq_zero_iff status).mp hzero]
  obtain ⟨row, hrow, hargs⟩ := args.words_le rephdr
  have hiff : SizesCover rephdr args svc head event ↔ event.resultWords ≤ row.pReplen := by
    simp only [SizesCover, hrow, replyWords_of_ok svc head event hstatus, Option.some.injEq, exists_eq_left',
      hargs, true_and]
  rw [hiff]
  -- the row follows from the number, and the number from either side
  have hfind : vsnfsProcedures.find? (fun row => row.pProc = event.proc) = some row := by
    rw [hproc]
    exact hrow
  rw [← hproc]
  cases event with
  | null dummy =>
      obtain rfl := Option.some.inj hfind
      exact iff_of_false (by simp only [Event.resultWords]; decide) (fun hne => hne rfl)
  | getroot _ _ | lookup _ _ | readdir _ _ | read _ _ =>
      obtain rfl := Option.some.inj hfind
      exact iff_of_true (by simp only [Event.resultWords]; decide) (by simp only [Event.proc]; decide)

/-- The reply to a NULL call is a status and a number, where one word is declared. -/
theorem null_reply_not_covered :
    wireStatus ⟨0, [], 0⟩ none (.null 7) = some 0 ∧
      ¬ SizesCover 0 (.nullargs 7) ⟨0, [], 0⟩ none (.null 7) := by
  have hok : wireStatus ⟨0, [], 0⟩ none (.null 7) = some 0 := by decide
  refine ⟨hok, ?_⟩
  rintro ⟨row, hrow, -, words, hwords, hle⟩
  rw [replyWords_of_ok ⟨0, [], 0⟩ none (.null 7) rfl] at hwords
  cases hrow
  cases hwords
  exact absurd hle (by decide)

/-- A mount with the longest path: 257 words of arguments, all of them declared. -/
theorem longest_mount_covered :
    (ClientArgs.getrootargs longRoot.path).words 0 = 257 ∧
      SizesCover 0 (.getrootargs longRoot.path) ⟨0, [], 0⟩ none
        (.getroot longRoot (.answering (.found ⟨5, .dir⟩))) := by
  have hlength : longRoot.path.bytes.length = vsnfsMaxpathlen := longPath_length
  have hok : wireStatus ⟨0, [], 0⟩ none (.getroot longRoot (.answering (.found ⟨5, .dir⟩))) = some 0 := by
    rw [wireStatus_eq]
    rfl
  refine ⟨?_, (declared_sizes_cover_iff 0 _ ⟨0, [], 0⟩ none _ rfl hok).mpr (by simp [ClientArgs.proc])⟩
  change quadWords (xdrEncodeArray longRoot.path.bytes).length = 257
  rw [xdrEncodeArray_length, hlength]
  rfl

end Vsnfs
