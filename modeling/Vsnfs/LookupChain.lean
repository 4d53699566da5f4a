import Mathlib.Data.List.Infix
import Vsnfs.RequestCodec
import Vsnfs.ServerDispatch
import Vsnfs.ServerHistory

/-! Chains of lookups over the wire: a mount, and then one LOOKUP after another, each with the handle
from the reply before. A handle carries only a number, so what a name is appended to depends on the
entry which that number finds in the table; the paths of a chain compose as long as no two objects of
the chain share a number. -/

namespace Vsnfs

open Base

/-! ### Composed paths -/

/-- The path of a mount, and the names behind it with single slashes between them. -/
def chainPath (path : PathName) (names : List FileName) : List Byte :=
  withSlash path.bytes ++ List.intercalate [slash] (names.map FileName.bytes)

theorem intercalate_concat {Item : Type} (sep last : List Item) {parts : List (List Item)} (hne : parts ≠ []) :
    List.intercalate sep (parts ++ [last]) = List.intercalate sep parts ++ (sep ++ last) := by
  induction parts with
  | nil => exact absurd rfl hne
  | cons part parts ih =>
      cases parts with
      | nil => simp
      | cons next parts =>
          have hrest := ih (List.cons_ne_nil next parts)
          rw [List.cons_append] at hrest
          rw [List.cons_append, List.cons_append, List.intercalate_cons_cons, hrest,
            List.intercalate_cons_cons, List.append_assoc _ _ (sep ++ last)]

theorem withSlash_withSlash (text : List Byte) : withSlash (withSlash text) = withSlash text := by
  rw [withSlash, if_pos (withSlash_getLast? text)]

theorem storedText_length_le (inode : Inode) (text : List Byte) :
    (storedText inode text).length ≤ (withSlash text).length := by
  unfold storedText
  split
  · exact le_rfl
  · unfold withSlash
    split
    · exact le_rfl
    · rw [List.length_append]
      exact Nat.le_add_right _ _

theorem chainPath_nil (path : PathName) : chainPath path [] = withSlash path.bytes := by
  rw [chainPath, List.map_nil, List.intercalate_nil, List.append_nil]

/-- No name ends in a slash. -/
theorem FileName.getLast?_ne (name : FileName) : name.bytes.getLast? ≠ some slash := by
  intro hlast
  exact (name.hclean slash (List.mem_of_getLast? hlast)).2 rfl

theorem chainPath_concat_of_ne_nil (path : PathName) {names : List FileName} (hne : names ≠ [])
    (name : FileName) : chainPath path (names ++ [name]) = chainPath path names ++ [slash] ++ name.bytes := by
  have hparts : names.map FileName.bytes ≠ [] := fun hnil => hne (List.map_eq_nil_iff.mp hnil)
  rw [chainPath, List.map_append, List.map_singleton, intercalate_concat _ _ hparts, chainPath]
  simp only [List.append_assoc]

theorem chainPath_concat_getLast? (path : PathName) (names : List FileName) (name : FileName)
    (hname : name.bytes ≠ []) : (chainPath path (names ++ [name])).getLast? ≠ some slash := by
  have hend : ∃ front, chainPath path (names ++ [name]) = front ++ name.bytes := by
    by_cases hnil : names = []
    · exact ⟨withSlash path.bytes, by simp [chainPath, hnil]⟩
    · exact ⟨_, chainPath_concat_of_ne_nil path hnil name⟩
  obtain ⟨front, hfront⟩ := hend
  rw [hfront, List.getLast?_append_of_ne_nil _ hname]
  exact name.getLast?_ne

/-- **A name behind the stored path of a directory of the chain** is the next path of the chain. -/
theorem chainPath_concat (path : PathName) (names : List FileName) (name : FileName)
    (hnames : ∀ other ∈ names, other.bytes ≠ []) :
    withSlash (chainPath path names) ++ name.bytes = chainPath path (names ++ [name]) := by
  by_cases hnil : names = []
  · rw [hnil, chainPath_nil, withSlash_withSlash]
    simp [chainPath]
  · obtain ⟨before, last, rfl⟩ : ∃ before last, names = before ++ [last] :=
      ⟨names.dropLast, names.getLast hnil, (List.dropLast_append_getLast hnil).symm⟩
    have hlast := chainPath_concat_getLast? path before last (hnames last (by simp))
    rw [withSlash, if_neg hlast, chainPath_concat_of_ne_nil path hnil name]

/-! ### Exchanges -/

/-- A served request for a handle: the handler gave this string to `path_lookup`, which succeeded, and
returned `vsnfs_ok`; the client reads the handle in the reply. -/
structure Replied (svc : SvcRes) (out : Outcome VsnfsFh) (dispatched : Option (Dispatched VsnfsFh))
    (given : List Byte) (fh : VsnfsFh) : Prop where
  hcall : .pathLookup given 0 ∈ out.calls
  hok : out.status = some (vsnfserr .ok)
  hreply : ∃ reply old, dispatched = some reply ∧
    vsnfsXdrFh (reply.svc.head.drop svc.head.length) old = some (0, fh)

/-- GETROOT of a path from a server in any state: the request is encoded by the client, decoded by the
server from its memory, and `path_lookup` finds the root. -/
inductive Mounted (path : PathName) (root : Inode) : List Byte → Head → VsnfsFh → Prop where
  | mk (head : Head) (svc : SvcRes) (mem : Nat → Byte) (args : GetrootArgs) (env : GetrootEnv)
      (given : List Byte) (fh : VsnfsFh) (hmem : HoldsAt mem 0 (vsnfsXdrGetrootargs path.bytes))
      (hdecode : vsnfssvcDecodeGetrootargs mem (vsnfsXdrGetrootargs path.bytes).length = some args)
      (hfound : env.pathLookup given = .found root)
      (hreplied : Replied svc (vsnfsdProcGetroot head args zeroFh env)
        (dispatchGetroot svc head (some args) env) given fh) :
      Mounted path root given (vsnfsdProcGetroot head args zeroFh env).head fh

/-- LOOKUP of a name with a handle, in the same way. -/
inductive LookedUp (head : Head) (fh : VsnfsFh) (name : FileName) (inode : Inode) :
    List Byte → Head → VsnfsFh → Prop where
  | mk (svc : SvcRes) (mem : Nat → Byte) (after : List Byte) (args : LookupArgs) (env : LookupEnv)
      (given : List Byte) (fh' : VsnfsFh) (hmem : HoldsAt mem 0 (vsnfsXdrLookupargs fh name.bytes))
      (hdecode : vsnfssvcDecodeLookupargs mem (vsnfsXdrLookupargs fh name.bytes).length after = some args)
      (hfound : env.pathLookup given = .found inode)
      (hreplied : Replied svc (vsnfsdProcLookup head args zeroFh env)
        (dispatchLookup svc head (some args) env) given fh') :
      LookedUp head fh name inode given (vsnfsdProcLookup head args zeroFh env).head fh'

/-- The client finds the handler's result. -/
theorem Replied.fh_eq {Args : Type} {svc : SvcRes} {args : Args} {func : Args → Outcome VsnfsFh}
    {given : List Byte} {fh : VsnfsFh}
    (h : Replied svc (func args)
      (vsnfsdDispatch svc (some args) func (headEncoder vsnfssvcEncodeFhandle)) given fh) :
    fh = (func args).resp := by
  obtain ⟨reply, old, hsome, hread⟩ := h.hreply
  have hhead : reply.svc.head = svc.head ++ (leBytes 0 ++ serverHandleBytes (func args).resp) := by
    rw [vsnfsdDispatch, h.hok, vsnfserr_ok] at hsome
    simp only [if_true, Option.some.injEq] at hsome
    rw [← hsome]
    simp only [headEncoder, vsnfssvcEncodeFhandle, SvcRes.emit, serverHandleBytes, List.append_assoc]
  have hfh := client_reads_server (func args).resp []
  rw [List.append_nil] at hfh
  rw [hhead, List.drop_left] at hread
  simp only [vsnfsXdrFh, replyStatus, take32_leBytes, hfh] at hread
  rw [if_neg (by decide)] at hread
  exact (congrArg Prod.snd (Option.some.inj hread)).symm

/-- The one string GETROOT looks up. -/
theorem getroot_given {head : Head} {args : GetrootArgs} {resp : VsnfsFh} {env : GetrootEnv}
    {given : List Byte} {errno : Int}
    (h : .pathLookup given errno ∈ (vsnfsdProcGetroot head args resp env).calls) :
    given = rootPath args env := by
  simp only [vsnfsdProcGetroot, Outcome.call, Outcome.enter] at h
  repeat' split at h
  all_goals simp only [List.nil_append, List.cons_append, List.mem_cons, List.not_mem_nil, or_false,
    reduceCtorEq, false_or, ExtCall.pathLookup.injEq] at h
  all_goals exact h.1

/-- The one string LOOKUP looks up: the path of the entry that the handle finds, and the name. -/
theorem lookup_given {nodes : List Node} {args : LookupArgs} {resp : VsnfsFh} {env : LookupEnv}
    {given : List Byte} {errno : Int}
    (h : .pathLookup given errno ∈ (vsnfsdProcLookup (some nodes) args resp env).calls) :
    ∃ node, findNode nodes (args.fh.ino args.after) = some node ∧ given = lookupText node args := by
  simp only [vsnfsdProcLookup, Outcome.call, Outcome.enter] at h
  cases hfind : findNode nodes (args.fh.ino args.after) with
  | none =>
      rw [hfind] at h
      cases h
  | some node =>
      refine ⟨node, rfl, ?_⟩
      simp only [hfind, lookupPath_cstr] at h
      repeat' split at h
      all_goals simp only [List.nil_append, List.cons_append, List.mem_cons, List.not_mem_nil, or_false,
        reduceCtorEq, false_or, ExtCall.pathLookup.injEq] at h
      all_goals exact h.1

/-! ### The decoded requests -/

theorem decode_getroot_request {path : PathName} {mem : Nat → Byte}
    (hmem : HoldsAt mem 0 (vsnfsXdrGetrootargs path.bytes)) :
    vsnfssvcDecodeGetrootargs mem (vsnfsXdrGetrootargs path.bytes).length = some ⟨path⟩ := by
  rw [vsnfsXdrGetrootargs] at hmem ⊢
  have hlength := xdrEncodeArray_length path.bytes
  rw [xdrEncodeArray_eq, holdsAt_append] at hmem
  exact (decodeGetrootargs_eq_some_iff mem _ ⟨path⟩).mpr ⟨hmem.1, hlength.ge⟩

theorem decode_lookup_request {fh : VsnfsFh} {name : FileName} {mem : Nat → Byte} (after : List Byte)
    (hmem : HoldsAt mem 0 (vsnfsXdrLookupargs fh name.bytes)) :
    vsnfssvcDecodeLookupargs mem (vsnfsXdrLookupargs fh name.bytes).length after =
      some ⟨fh, after, name⟩ := by
  rw [vsnfsXdrLookupargs] at hmem ⊢
  have hlength := xdrEncodeArray_length name.bytes
  rw [xdrEncodeArray_eq, ← List.append_assoc, holdsAt_append] at hmem
  refine (decodeLookupargs_eq_some_iff mem _ after ⟨fh, after, name⟩).mpr ⟨rfl, hmem.1, ?_⟩
  rw [List.length_append, xdrEncodeFhandle_length, hlength]
  simp only [vsnfsFhsize]
  omega

/-! ### Chains -/

/-- A mount, and lookups each with the handle of the reply before. The steps are the names with the
objects that were found, and then come the strings that `path_lookup` was given, the table and the
last handle. -/
inductive Chain (path : PathName) (root : Inode) :
    List (FileName × Inode) → List (List Byte) → Head → VsnfsFh → Prop where
  | mount {given : List Byte} {head : Head} {fh : VsnfsFh} (h : Mounted path root given head fh) :
      Chain path root [] [given] head fh
  | lookup {steps : List (FileName × Inode)} {givens : List (List Byte)} {head : Head} {fh : VsnfsFh}
      {name : FileName} {inode : Inode} {given : List Byte} {head' : Head} {fh' : VsnfsFh}
      (h : Chain path root steps givens head fh) (hnext : LookedUp head fh name inode given head' fh') :
      Chain path root (steps ++ [(name, inode)]) (givens ++ [given]) head' fh'

/-- The objects of a chain: their numbers are distinct, positive and of at most seven digits, all but
the last are directories, and no name is empty. -/
structure ChainObjects (root : Inode) (steps : List (FileName × Inode)) : Prop where
  names : ∀ step ∈ steps, step.1.bytes ≠ []
  distinct : ((root :: steps.map Prod.snd).map Inode.ino).Nodup
  numbers : ∀ inode ∈ root :: steps.map Prod.snd, 0 < inode.ino.toNat ∧ inode.ino.toNat < 10 ^ 7
  dirs : ∀ inode ∈ (root :: steps.map Prod.snd).dropLast, inode.kind = .dir

def lastObject (root : Inode) (steps : List (FileName × Inode)) : Inode :=
  (steps.getLast?.map Prod.snd).getD root

/-- What the table has for the last object: its path, with a slash behind it for a directory. -/
def lastPath (path : PathName) (root : Inode) (steps : List (FileName × Inode)) : List Byte :=
  if steps = [] then withSlash path.bytes
  else chainPath path (steps.map Prod.fst) ++ if (lastObject root steps).kind = .dir then [slash] else []

theorem lastObject_mem (root : Inode) (steps : List (FileName × Inode)) :
    lastObject root steps ∈ root :: steps.map Prod.snd := by
  rw [lastObject]
  cases hlast : steps.getLast? with
  | none => exact List.mem_cons_self
  | some step =>
      exact List.mem_cons_of_mem root (List.mem_map_of_mem (List.mem_of_getLast? hlast))

theorem lastObject_concat (root : Inode) (steps : List (FileName × Inode)) (step : FileName × Inode) :
    lastObject root (steps ++ [step]) = step.2 := by
  rw [lastObject, List.getLast?_append, List.getLast?_singleton]
  rfl

theorem lastPath_concat (path : PathName) (root : Inode) (steps : List (FileName × Inode))
    {step : FileName × Inode} (hname : step.1.bytes ≠ []) :
    lastPath path root (steps ++ [step]) =
      storedText step.2 (chainPath path (steps.map Prod.fst ++ [step.1])) := by
  have hlast := chainPath_concat_getLast? path (steps.map Prod.fst) step.1 hname
  rw [lastPath, if_neg (by simp), lastObject_concat, List.map_append, List.map_singleton, storedText,
    withSlash, if_neg hlast]
  split
  · rfl
  · rw [List.append_nil]

section LastPath

variable (path : PathName) (root : Inode) {steps : List (FileName × Inode)}
  (hnames : ∀ step ∈ steps, step.1.bytes ≠ [])

include hnames

/-- A directory of the chain is stored with a slash. -/
theorem lastPath_of_dir (hdir : (lastObject root steps).kind = .dir) :
    lastPath path root steps = withSlash (chainPath path (steps.map Prod.fst)) := by
  rcases List.eq_nil_or_concat steps with rfl | ⟨before, step, rfl⟩
  · rw [List.map_nil, chainPath_nil, withSlash_withSlash]
    rfl
  · rw [List.concat_eq_append] at *
    rw [lastObject_concat] at hdir
    rw [lastPath_concat path root before (hnames step (by simp)), storedText, if_pos hdir,
      List.map_append, List.map_singleton]

theorem lastPath_length_le :
    (lastPath path root steps).length ≤ (withSlash (chainPath path (steps.map Prod.fst))).length := by
  rcases List.eq_nil_or_concat steps with rfl | ⟨before, step, rfl⟩
  · rw [List.map_nil, chainPath_nil, withSlash_withSlash]
    exact le_rfl
  · rw [List.concat_eq_append] at *
    rw [lastPath_concat path root before (hnames step (by simp)), List.map_append, List.map_singleton]
    exact storedText_length_le _ _

end LastPath

/-- A chain without its last step. -/
theorem ChainObjects.front {root : Inode} {steps : List (FileName × Inode)} {name : FileName}
    {inode : Inode} (h : ChainObjects root (steps ++ [(name, inode)])) :
    ChainObjects root steps ∧ (∀ other ∈ root :: steps.map Prod.snd, other.kind = .dir) ∧
      inode.ino ∉ (root :: steps.map Prod.snd).map Inode.ino := by
  obtain ⟨hnames, hdistinct, hnumbers, hdirs⟩ := h
  have hobjects : root :: (steps ++ [(name, inode)]).map Prod.snd = (root :: steps.map Prod.snd) ++ [inode] := by
    rw [List.map_append, List.map_singleton, List.cons_append]
  rw [hobjects] at hdistinct hnumbers hdirs
  rw [List.dropLast_concat] at hdirs
  rw [List.map_append, List.map_singleton, List.nodup_append] at hdistinct
  refine ⟨⟨fun step hstep => hnames step (List.mem_append_left _ hstep), hdistinct.1,
    fun other hother => hnumbers other (List.mem_append_left _ hother),
    fun other hother => hdirs other (List.mem_of_mem_dropLast hother)⟩, hdirs, ?_⟩
  intro hmem
  exact hdistinct.2.2 inode.ino hmem inode.ino (List.mem_singleton.mpr rfl) rfl

/-- The server and the client after a chain: only the objects of the chain are in the table, the last
one under its path, and the handle is the printed number of the last one. -/
structure ChainState (path : PathName) (root : Inode) (steps : List (FileName × Inode))
    (nodes : List Node) (fh : VsnfsFh) : Prop where
  unique : UniqueInos (some nodes)
  numbers : ∀ node ∈ nodes, node.ino ∈ (root :: steps.map Prod.snd).map Inode.ino
  entry : ∃ node ∈ nodes, node.ino = (lastObject root steps).ino ∧ node.path = lastPath path root steps
  printed : Printed (lastObject root steps).ino fh

/-- The mount at the start of a chain. -/
theorem Mounted.state {path : PathName} {root : Inode} {given : List Byte} {head : Head} {fh : VsnfsFh}
    (h : Mounted path root given head fh) (hpath : path.bytes ≠ []) :
    given = chainPath path [] ∧ ∃ nodes, head = some nodes ∧ ChainState path root [] nodes fh := by
  obtain ⟨head, svc, mem, args, env, given, fh, hmem, hdecode, hfound, hreplied⟩ := h
  obtain rfl := Option.some.inj (hdecode.symm.trans (decode_getroot_request hmem))
  have hfh := hreplied.fh_eq
  have hok := hreplied.hok
  obtain rfl := getroot_given hreplied.hcall
  have hanswer : rootAnswer ⟨path⟩ env = .found root := hfound
  have hgiven := rootPath_withSlash ⟨path⟩ env hpath
  refine ⟨by rw [hgiven, chainPath_nil], ?_⟩
  obtain ⟨other, hdentry, hhead, hresp⟩ := getroot_of_ok hok
  rw [hanswer] at hdentry
  obtain rfl : root = other := Option.some.inj hdentry
  refine ⟨_, hhead, List.pairwise_singleton _ _, ?_, ?_, ?_⟩
  · intro node hnode
    rw [List.mem_singleton.mp hnode]
    exact List.mem_cons_self
  · exact ⟨_, List.mem_singleton.mpr rfl, rfl, hgiven⟩
  · rw [hfh, hresp]
    exact getrootResp_printed zeroFh root

section Step

variable {path : PathName} {root : Inode} {steps : List (FileName × Inode)} {nodes : List Node}
  {fh : VsnfsFh}

/-- The handle finds the entry of the last object. -/
theorem ChainState.findNode_eq (hstate : ChainState path root steps nodes fh)
    (hsmall : (lastObject root steps).ino.toNat < 10 ^ 7) (after : List Byte) :
    ∃ node, findNode nodes (fh.ino after) = some node ∧ node ∈ nodes ∧
      node.ino = (lastObject root steps).ino ∧ node.path = lastPath path root steps := by
  obtain ⟨node, hmem, hino, hstored⟩ := hstate.entry
  refine ⟨node, ?_, hmem, hino, hstored⟩
  rw [(hstate.printed.ino_eq_iff after).mpr hsmall, ← hino]
  exact findNode_of_mem hstate.unique hmem

/-- An entry of a new number in front, for the next object of the chain. -/
theorem ChainState.concat (hstate : ChainState path root steps nodes fh) {name : FileName} {inode : Inode}
    (hname : name.bytes ≠ []) (hnew : findNode nodes inode.ino = none) {node : Node}
    (hino : node.ino = inode.ino)
    (hstored : node.path = storedText inode (chainPath path (steps.map Prod.fst ++ [name])))
    {fh' : VsnfsFh} (hprinted : Printed inode.ino fh') :
    ChainState path root (steps ++ [(name, inode)]) (node :: nodes) fh' := by
  refine ⟨?_, ?_, ?_, ?_⟩
  · refine List.Pairwise.cons ?_ hstate.unique
    intro other hother heq
    exact (findNode_eq_none_iff nodes inode.ino).mp hnew other hother (heq.symm.trans hino)
  · intro other hother
    rw [List.map_append, List.map_singleton, ← List.cons_append, List.map_append, List.mem_append]
    rcases List.mem_cons.mp hother with rfl | hother
    · exact Or.inr (List.mem_singleton.mpr hino)
    · exact Or.inl (hstate.numbers other hother)
  · refine ⟨node, List.mem_cons_self, ?_, ?_⟩
    · rw [lastObject_concat]
      exact hino
    · rw [lastPath_concat path root steps hname]
      exact hstored
  · rwa [lastObject_concat]

/-- **One LOOKUP of a chain.** -/
theorem LookedUp.state {name : FileName} {inode : Inode} {given : List Byte} {head' : Head}
    {fh' : VsnfsFh} (h : LookedUp (some nodes) fh name inode given head' fh')
    (hstate : ChainState path root steps nodes fh)
    (hobjects : ChainObjects root (steps ++ [(name, inode)])) :
    given = chainPath path (steps.map Prod.fst ++ [name]) ∧
      ∃ nodes', head' = some nodes' ∧ ChainState path root (steps ++ [(name, inode)]) nodes' fh' := by
  obtain ⟨svc, mem, after, args, env, given, fh', hmem, hdecode, hfound, hreplied⟩ := h
  obtain rfl := Option.some.inj (hdecode.symm.trans (decode_lookup_request after hmem))
  obtain ⟨hfront, hdirs, hfresh⟩ := hobjects.front
  have hfh := hreplied.fh_eq
  have hok := hreplied.hok
  have hlast := lastObject_mem root steps
  have hdir := hdirs _ hlast
  obtain ⟨node, hfind, hnode, -, hstored⟩ := hstate.findNode_eq (hfront.numbers _ hlast).2 after
  rw [lastPath_of_dir path root hfront.names hdir] at hstored
  obtain ⟨other, hother, rfl⟩ := lookup_given hreplied.hcall
  obtain rfl : node = other := Option.some.inj (hfind.symm.trans hother)
  have hnames : ∀ other ∈ steps.map Prod.fst, other.bytes ≠ [] := by
    intro other hmem
    obtain ⟨step, hstep, rfl⟩ := List.mem_map.mp hmem
    exact hfront.names step hstep
  have hgiven : lookupText node ⟨fh, after, name⟩ = chainPath path (steps.map Prod.fst ++ [name]) := by
    rw [lookupText, hstored]
    exact chainPath_concat path _ name hnames
  have hanswer : lookupAnswer node ⟨fh, after, name⟩ env = .found inode := hfound
  refine ⟨hgiven, ?_⟩
  obtain ⟨object, hresolved, -, hresp, htable⟩ := lookup_of_ok hok hfind
  obtain rfl : inode = object :=
    Option.some.inj ((congrArg PathLookup.dentry hanswer).symm.trans hresolved.hdentry)
  rcases htable with ⟨old, hold, -⟩ | ⟨hnew, hhead⟩
  · -- the number would be one of the chain already
    have hmem := hstate.numbers old (mem_of_findNode hold)
    rw [ino_of_findNode hold] at hmem
    exact absurd hmem hfresh
  · refine ⟨_, hhead, hstate.concat (hobjects.names (name, inode) (by simp)) hnew rfl ?_ ?_⟩
    · rw [← hgiven]
      apply lookupNode_path_eq
      rw [hstored]
      exact withSlash_ne_nil _
    · rw [hfh, hresp]
      exact lookupResp_printed zeroFh inode

end Step

/-- What every chain leads to. -/
theorem Chain.state {path : PathName} {root : Inode} {steps : List (FileName × Inode)}
    {givens : List (List Byte)} {head : Head} {fh : VsnfsFh} (h : Chain path root steps givens head fh)
    (hpath : path.bytes ≠ []) (hobjects : ChainObjects root steps) :
    givens = (steps.map Prod.fst).inits.map (chainPath path) ∧
      ∃ nodes, head = some nodes ∧ ChainState path root steps nodes fh := by
  induction h with
  | mount h =>
      obtain ⟨rfl, hstate⟩ := h.state hpath
      exact ⟨rfl, hstate⟩
  | lookup h hnext ih =>
      obtain ⟨hgivens, nodes, rfl, hstate⟩ := ih hobjects.front.1
      obtain ⟨hgiven, hstate'⟩ := hnext.state hstate hobjects
      refine ⟨?_, hstate'⟩
      rw [hgivens, hgiven, List.map_append, List.map_singleton, List.inits_append, List.map_append]
      simp

/-- **Paths compose along every chain of lookups.** The strings that `path_lookup` was given are the
path of the mount with the first names behind it, for each number of names; and the last handle
resolves to the last of them, with a slash behind it when its object is a directory. -/
theorem lookup_chain_composes (path : PathName) (hpath : path.bytes ≠ []) (root : Inode)
    (steps : List (FileName × Inode)) (hobjects : ChainObjects root steps) (givens : List (List Byte))
    (head : Head) (fh : VsnfsFh) (hchain : Chain path root steps givens head fh)
    (hlength : (withSlash (chainPath path (steps.map Prod.fst))).length ≤ vsnfsMaxpathlen - 1) :
    givens = (steps.map Prod.fst).inits.map (chainPath path) ∧
      ∀ after junk, ∃ buffer,
        vsnfsdFhToPath head fh after (Buffer.alloc vsnfsMaxpathlen junk) vsnfsMaxpathlen = some (0, buffer) ∧
          buffer.cstr = lastPath path root steps := by
  obtain ⟨hgivens, nodes, rfl, hstate⟩ := hchain.state hpath hobjects
  refine ⟨hgivens, ?_⟩
  intro after junk
  obtain ⟨hpositive, hsmall⟩ := hobjects.numbers _ (lastObject_mem root steps)
  obtain ⟨node, hmem, hino, hstored⟩ := hstate.entry
  have hne : node.ino ≠ 0 := by
    intro hzero
    rw [← hino, hzero] at hpositive
    exact absurd hpositive (by decide)
  have hshort : node.path.length < vsnfsMaxpathlen := by
    have hle := lastPath_length_le path root hobjects.names
    rw [hstored]
    simp only [vsnfsMaxpathlen] at hlength ⊢
    omega
  have hparse : fh.ino after = node.ino := by
    rw [hino]
    exact (hstate.printed.ino_eq_iff after).mpr hsmall
  obtain ⟨buffer, hresolved, hcstr, -⟩ :=
    (resolves_of_mem hstate.unique hmem hne hshort).opens fh after junk hparse
  exact ⟨buffer, hresolved, hcstr.trans hstored⟩

/-- The name `x`. -/
def nameX : FileName := ⟨[0x78], by decide, by decide⟩

/-- The head after a mount of `/a` and the handle of its root. -/
def mountedA : Head × VsnfsFh :=
  ((vsnfsdProcGetroot none ⟨pathA⟩ zeroFh (.answering (.found ⟨5, .dir⟩))).head,
    (vsnfsdProcGetroot none ⟨pathA⟩ zeroFh (.answering (.found ⟨5, .dir⟩))).resp)

/-- The name `d`. -/
def nameD : FileName := ⟨[0x64], by decide, by decide⟩

/-- The head and the handle after a LOOKUP of a name. -/
def lookedUp (before : Head × VsnfsFh) (name : FileName) (inode : Inode) : Head × VsnfsFh :=
  ((vsnfsdProcLookup before.1 ⟨before.2, [], name⟩ zeroFh (.answering (.found inode))).head,
    (vsnfsdProcLookup before.1 ⟨before.2, [], name⟩ zeroFh (.answering (.found inode))).resp)

/-- After a LOOKUP of the directory `d` in it, and of the file `x` in that. -/
def lookedUpD : Head × VsnfsFh := lookedUp mountedA nameD ⟨6, .dir⟩

def lookedUpX : Head × VsnfsFh := lookedUp lookedUpD nameX ⟨7, .reg⟩

/-- The paths that are looked up on the way. -/
def pathsToX : List (List Byte) :=
  [[slash, 0x61, slash], [slash, 0x61, slash, 0x64], [slash, 0x61, slash, 0x64, slash, 0x78]]

theorem chain_to_x :
    Chain pathA ⟨5, .dir⟩ [(nameD, ⟨6, .dir⟩), (nameX, ⟨7, .reg⟩)] pathsToX lookedUpX.1 lookedUpX.2 := by
  have hmount : Mounted pathA ⟨5, .dir⟩ [slash, 0x61, slash] mountedA.1 mountedA.2 :=
    .mk none ⟨0, [], 0⟩ _ ⟨pathA⟩ (.answering (.found ⟨5, .dir⟩)) _ _ (memOf_holds _)
      (decode_getroot_request (memOf_holds _)) rfl ⟨by decide, by decide, _, zeroFh, rfl, by decide⟩
  have hdir : LookedUp mountedA.1 mountedA.2 nameD ⟨6, .dir⟩ [slash, 0x61, slash, 0x64] lookedUpD.1
      lookedUpD.2 :=
    .mk ⟨0, [], 0⟩ _ [] ⟨mountedA.2, [], nameD⟩ (.answering (.found ⟨6, .dir⟩)) _ _ (memOf_holds _)
      (decode_lookup_request [] (memOf_holds _)) rfl ⟨by decide, by decide, _, zeroFh, rfl, by decide⟩
  have hfile : LookedUp lookedUpD.1 lookedUpD.2 nameX ⟨7, .reg⟩ [slash, 0x61, slash, 0x64, slash, 0x78]
      lookedUpX.1 lookedUpX.2 :=
    .mk ⟨0, [], 0⟩ _ [] ⟨lookedUpD.2, [], nameX⟩ (.answering (.found ⟨7, .reg⟩)) _ _ (memOf_holds _)
      (decode_lookup_request [] (memOf_holds _)) rfl ⟨by decide, by decide, _, zeroFh, rfl, by decide⟩
  exact .lookup (.lookup (.mount hmount) hdir) hfile

/-- The handle of `x` resolves to `/a/d/x`. -/
theorem handle_of_x_resolves :
    Chain pathA ⟨5, .dir⟩ [(nameD, ⟨6, .dir⟩), (nameX, ⟨7, .reg⟩)] pathsToX lookedUpX.1 lookedUpX.2 ∧
      ∃ buffer, vsnfsdFhToPath lookedUpX.1 lookedUpX.2 [] (Buffer.alloc vsnfsMaxpathlen []) vsnfsMaxpathlen =
          some (0, buffer) ∧ buffer.cstr = [slash, 0x61, slash, 0x64, slash, 0x78] := by
  have hobjects : ChainObjects ⟨5, .dir⟩ [(nameD, ⟨6, .dir⟩), (nameX, ⟨7, .reg⟩)] :=
    ⟨by decide, by decide, by decide, by decide⟩
  have hcomposes := lookup_chain_composes pathA (by decide) ⟨5, .dir⟩ _ hobjects _ _ _ chain_to_x (by decide)
  exact ⟨chain_to_x, hcomposes.2 [] []⟩

end Vsnfs
