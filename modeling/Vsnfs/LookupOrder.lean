import Vsnfs.LookupObjects

/-! The order of lookups. A new entry goes to the front of the list, so two orders of the same requests
leave two different lists; but a search stops at a number, and the numbers that are there already stay
where they are found. As long as different requests find objects with different numbers, what a search
finds depends on the set of the requests alone, and so does every reply. -/

namespace Vsnfs

open Base

/-- The table after one LOOKUP. -/
def lookupHead (head : Head) (request : LookupRequest) : Head :=
  (vsnfsdProcLookup head request.1 zeroFh request.2).head

/-- The reply to a LOOKUP: its status and its handle. -/
def lookupReply (head : Head) (request : LookupRequest) : Option Word × VsnfsFh :=
  ((vsnfsdProcLookup head request.1 zeroFh request.2).status,
    (vsnfsdProcLookup head request.1 zeroFh request.2).resp)

/-- The kernel has memory for the request, and answers its path lookup from this tree. -/
structure AnsweredFrom (lookup : List Byte → PathLookup) (env : LookupEnv) : Prop where
  hpath : env.pathAlloc = true
  hnd : env.ndAlloc = true
  hnode : env.nodeAlloc = true
  hnodePath : env.nodePathAlloc = true
  htree : env.pathLookup = lookup

/-- What a request asks for: the number that its handle is read as, and the name. -/
structure Asked where
  ino : BitVec 64
  filename : FileName

def LookupArgs.asked (args : LookupArgs) : Asked := ⟨args.fh.ino args.after, args.filename⟩

abbrev askedOf (request : LookupRequest) : Asked := request.1.asked

/-- The text that a request composes. -/
def Asked.text (asked : Asked) (parent : Node) : List Byte := parent.path ++ asked.filename.bytes

/-- The request's handle is in the table, and its path lookup succeeds with this object. -/
structure Finds (lookup : List Byte → PathLookup) (nodes : List Node) (asked : Asked) (parent : Node)
    (inode : Inode) : Prop where
  hparent : findNode nodes asked.ino = some parent
  hfound : lookup (asked.text parent) = .found inode

theorem Asked.text_ne_zero (asked : Asked) (parent : Node) : ∀ byte ∈ asked.text parent, byte ≠ 0 :=
  append_ne_zero parent.hclean asked.filename.hzero

/-- The entry of a request, whatever the buffers held. -/
def entryOf (parent : Node) (asked : Asked) (inode : Inode) : Node where
  ino := inode.ino
  path := storedText inode (asked.text parent)
  hclean := by
    have htext := asked.text_ne_zero parent
    unfold storedText withSlash
    split
    · split
      · exact htext
      · refine append_ne_zero htext fun byte hbyte => ?_
        rw [List.mem_singleton.mp hbyte]
        decide
    · exact htext

theorem lookupNode_eq_entryOf {parent : Node} {args : LookupArgs} (hne : lookupText parent args ≠ [])
    (env : LookupEnv) (inode : Inode) :
    lookupNode parent args env inode = entryOf parent args.asked inode := by
  have hpath := lookupNode_path_of_ne_nil hne env inode
  cases hnode : lookupNode parent args env inode with
  | mk ino path hclean =>
      have hino : (lookupNode parent args env inode).ino = inode.ino := rfl
      rw [hnode] at hpath hino
      simp only [entryOf, Node.mk.injEq]
      exact ⟨hino, hpath⟩

theorem findNode_cons (node : Node) (nodes : List Node) (ino : BitVec 64) :
    findNode (node :: nodes) ino = if node.ino = ino then some node else findNode nodes ino := by
  by_cases hino : node.ino = ino
  · rw [findNode, List.find?_cons_of_pos (by simpa using hino), if_pos hino]
  · rw [findNode, List.find?_cons_of_neg (by simpa using hino), if_neg hino]
    rfl

/-! ### The empty text -/

/-- An entry with an empty path is the object that the empty text leads to. -/
def EmptyPaths (lookup : List Byte → PathLookup) (server : Server) : Prop :=
  ∀ node ∈ server.head.entries, node.path = [] →
    ∃ inode, (lookup []).dentry = some inode ∧ inode.ino = node.ino

theorem Inserts.emptyPath {head : Head} {event : Event} {inode : Inode} {node : Node}
    (h : Inserts head event inode node) (hnil : node.path = []) :
    ∃ pathLookup ∈ event.pathLookup, (pathLookup []).dentry = some inode := by
  cases h with
  | root args env root halloc hdentry =>
      refine ⟨env.pathLookup, rfl, ?_⟩
      have hroot : rootPath args env = [] := hnil
      rw [rootAnswer, hroot] at hdentry
      exact hdentry
  | child nodes args env parent inode hhead hfound =>
      refine ⟨env.pathLookup, rfl, ?_⟩
      have htext : lookupText parent args = [] := by
        by_contra hne
        rw [lookupNode_path_of_ne_nil hne] at hnil
        revert hnil
        unfold storedText
        split
        · exact withSlash_ne_nil _
        · exact hne
      have hdentry := hfound.hdentry
      rw [lookupAnswer, htext] at hdentry
      exact hdentry

/-- The directory that the server thread runs in is always the same. -/
def SameEmpty (lookup : List Byte → PathLookup) (event : Event) : Prop :=
  ∀ pathLookup ∈ event.pathLookup, pathLookup [] = lookup []

theorem step_emptyPaths {lookup : List Byte → PathLookup} (server : Server) (event : Event)
    (hpaths : EmptyPaths lookup server) (hsame : SameEmpty lookup event) :
    EmptyPaths lookup (step server event) := by
  intro node hnode hnil
  rcases step_entries server event node hnode with hold | ⟨inode, hinserts⟩
  · exact hpaths node hold hnil
  · obtain ⟨pathLookup, hmem, hdentry⟩ := hinserts.emptyPath hnil
    rw [hsame pathLookup hmem] at hdentry
    exact ⟨inode, hdentry, hinserts.ino_eq.symm⟩

theorem run_emptyPaths {lookup : List Byte → PathLookup} {events : List Event}
    (hsame : ∀ event ∈ events, SameEmpty lookup event) :
    EmptyPaths lookup (runFrom step Server.load events) := by
  have hload : EmptyPaths lookup Server.load := by
    intro node hnode
    cases hnode
  exact Along.invariant step_emptyPaths hload (along_of_forall hsame Server.load) (List.prefix_refl events)

/-! ### What the table has become -/

/-- The table after requests: what was found before is found now, the other numbers are those of the
requests, each with the request's entry. -/
structure Grown (lookup : List Byte → PathLookup) (nodes : List Node) (done : List Asked)
    (table : List Node) : Prop where
  old : ∀ ino node, findNode nodes ino = some node → findNode table ino = some node
  new : ∀ asked parent inode, asked ∈ done → Finds lookup nodes asked parent inode →
    findNode nodes inode.ino = none → findNode table inode.ino = some (entryOf parent asked inode)
  only : ∀ ino node, findNode table ino = some node → findNode nodes ino = some node ∨
    ∃ asked parent inode, asked ∈ done ∧ Finds lookup nodes asked parent inode ∧ inode.ino = ino

section Order

variable {lookup : List Byte → PathLookup} {nodes : List Node}

/-- The reply of a request that is served from this table: the status and the handle of its object. -/
def replyFrom (lookup : List Byte → PathLookup) (nodes : List Node) (asked : Asked) :
    Option Word × VsnfsFh :=
  match findNode nodes asked.ino with
  | none => (some (vsnfserr .ok), zeroFh)
  | some parent =>
      match (lookup (asked.text parent)).dentry with
      | none => (none, zeroFh)
      | some inode => (some (lookup (asked.text parent)).word, lookupResp zeroFh inode)

theorem replyFrom_eq {asked : Asked} {parent : Node} {inode : Inode}
    (hfinds : Finds lookup nodes asked parent inode) :
    replyFrom lookup nodes asked = (some (vsnfserr .ok), lookupResp zeroFh inode) := by
  rw [replyFrom, hfinds.hparent]
  simp only [hfinds.hfound, PathLookup.dentry]
  rfl

/-- Different requests find objects with different numbers. -/
def DistinctFinds (lookup : List Byte → PathLookup) (nodes : List Node) (requests : List Asked) : Prop :=
  ∀ first ∈ requests, ∀ second ∈ requests, ∀ parent inode parent' inode',
    Finds lookup nodes first parent inode → Finds lookup nodes second parent' inode' →
      inode.ino = inode'.ino → first = second

theorem Finds.unique {asked : Asked} {parent other : Node} {inode found : Inode}
    (h : Finds lookup nodes asked parent inode) (hother : Finds lookup nodes asked other found) :
    parent = other ∧ inode = found := by
  have hparent : parent = other := Option.some.inj (h.hparent.symm.trans hother.hparent)
  subst hparent
  exact ⟨rfl, PathLookup.found.inj (h.hfound.symm.trans hother.hfound)⟩

theorem grown_nil (lookup : List Byte → PathLookup) (nodes : List Node) : Grown lookup nodes [] nodes := by
  refine ⟨fun _ _ hnode => hnode, fun _ _ _ hdone => ?_, fun _ _ hnode => Or.inl hnode⟩
  cases hdone

/-- The handle is found in the grown table too, with the same object. -/
theorem Grown.resolved {done : List Asked} {table : List Node} (h : Grown lookup nodes done table)
    {args : LookupArgs} {env : LookupEnv} {parent : Node} {inode : Inode}
    (hfinds : Finds lookup nodes args.asked parent inode) (henv : AnsweredFrom lookup env) :
    LookupResolved table args env parent inode ∧ lookupAnswer parent args env = .found inode := by
  have hanswer : lookupAnswer parent args env = .found inode := by
    rw [lookupAnswer, henv.htree]
    exact hfinds.hfound
  exact ⟨⟨h.old _ parent hfinds.hparent, henv.hpath, henv.hnd, by rw [hanswer]; rfl⟩, hanswer⟩

theorem DistinctFinds.mono {requests more : List Asked} (h : DistinctFinds lookup nodes requests)
    (hmore : more ⊆ requests) : DistinctFinds lookup nodes more :=
  fun first hfirst second hsecond => h first (hmore hfirst) second (hmore hsecond)

/-- A request whose number is found already leaves the table. -/
theorem Grown.again {done : List Asked} {table : List Node} (h : Grown lookup nodes done table)
    {asked : Asked} {parent : Node} {inode : Inode} (hfinds : Finds lookup nodes asked parent inode)
    (hdistinct : DistinctFinds lookup nodes (asked :: done)) {node : Node}
    (hknown : findNode table inode.ino = some node) : Grown lookup nodes (asked :: done) table := by
  refine ⟨h.old, ?_, ?_⟩
  · intro other parent' inode' hother hfinds' hnone
    rcases List.mem_cons.mp hother with rfl | hdone
    · obtain ⟨rfl, rfl⟩ := hfinds.unique hfinds'
      -- The number is new, so an earlier request has put it there: this one, once before.
      rcases h.only inode.ino node hknown with hold | ⟨earlier, parent', inode', hdone, hfinds', hino⟩
      · rw [hold] at hnone
        cases hnone
      · obtain rfl := hdistinct earlier (List.mem_cons_of_mem _ hdone) other List.mem_cons_self
          _ _ _ _ hfinds' hfinds hino
        exact h.new earlier parent inode hdone hfinds hnone
    · exact h.new other parent' inode' hdone hfinds' hnone
  · intro ino node' hnode'
    rcases h.only ino node' hnode' with hold | ⟨other, parent', inode', hdone, hrest⟩
    · exact Or.inl hold
    · exact Or.inr ⟨other, parent', inode', List.mem_cons_of_mem _ hdone, hrest⟩

/-- A request with a new number puts its entry in front. -/
theorem Grown.first {done : List Asked} {table : List Node} (h : Grown lookup nodes done table)
    {asked : Asked} {parent : Node} {inode : Inode} (hfinds : Finds lookup nodes asked parent inode)
    (hnew : findNode table inode.ino = none) :
    Grown lookup nodes (asked :: done) (entryOf parent asked inode :: table) := by
  have hkept : ∀ ino node, findNode table ino = some node →
      findNode (entryOf parent asked inode :: table) ino = some node := by
    intro ino node hnode
    rw [findNode_cons, if_neg, hnode]
    intro hino
    rw [show (entryOf parent asked inode).ino = inode.ino from rfl] at hino
    rw [hino, hnode] at hnew
    cases hnew
  refine ⟨fun ino node hnode => hkept ino node (h.old ino node hnode), ?_, ?_⟩
  · intro other parent' inode' hother hfinds' hnone
    rcases List.mem_cons.mp hother with rfl | hdone
    · obtain ⟨rfl, rfl⟩ := hfinds.unique hfinds'
      exact (findNode_cons _ _ _).trans (if_pos rfl)
    · exact hkept _ _ (h.new other parent' inode' hdone hfinds' hnone)
  · intro ino node hnode
    rw [findNode_cons] at hnode
    split at hnode
    · rename_i hino
      exact Or.inr ⟨asked, parent, inode, List.mem_cons_self, hfinds, hino⟩
    · rcases h.only ino node hnode with hold | ⟨other, parent', inode', hdone, hrest⟩
      · exact Or.inl hold
      · exact Or.inr ⟨other, parent', inode', List.mem_cons_of_mem _ hdone, hrest⟩

variable (hempty : ∀ node ∈ nodes, node.path = [] → ∃ inode, (lookup []).dentry = some inode ∧
  inode.ino = node.ino)

include hempty

/-- A new object is found under a text that is not empty. -/
theorem Grown.text_ne_nil {done : List Asked} {table : List Node} (h : Grown lookup nodes done table)
    {asked : Asked} {parent : Node} {inode : Inode} (hfinds : Finds lookup nodes asked parent inode)
    (hnew : findNode table inode.ino = none) : asked.text parent ≠ [] := by
  intro hnil
  have hparent := hempty parent (mem_of_findNode hfinds.hparent) (List.append_eq_nil_iff.mp hnil).1
  obtain ⟨other, hother, hino⟩ := hparent
  have hfound := hfinds.hfound
  rw [hnil] at hfound
  rw [hfound] at hother
  obtain rfl : inode = other := Option.some.inj hother
  have hold := h.old _ parent hfinds.hparent
  rw [← ino_of_findNode hfinds.hparent, ← hino, hnew] at hold
  cases hold

/-- **One request**: its reply is that of the object alone, and the table grows by its entry. -/
theorem Grown.step {done : List Asked} {table : List Node} (h : Grown lookup nodes done table)
    {request : LookupRequest} {parent : Node} {inode : Inode}
    (hfinds : Finds lookup nodes request.1.asked parent inode) (henv : AnsweredFrom lookup request.2)
    (hdistinct : DistinctFinds lookup nodes (request.1.asked :: done)) :
    lookupReply (some table) request = (some (vsnfserr .ok), lookupResp zeroFh inode) ∧
      ∃ table', lookupHead (some table) request = some table' ∧
        Grown lookup nodes (request.1.asked :: done) table' := by
  obtain ⟨hresolved, hanswer⟩ := h.resolved hfinds henv
  have hword : (lookupAnswer parent request.1 request.2).word = vsnfserr .ok := by
    rw [hanswer]
    rfl
  unfold lookupReply lookupHead
  cases lookup_exit table request.1 zeroFh request.2 with
  | unknown hnone => cases hnone.symm.trans hresolved.hfind
  | noPath _ _ hpath => cases hpath.symm.trans henv.hpath
  | noNd _ _ _ hnd => cases hnd.symm.trans henv.hnd
  | noDentry node hfind _ _ hdentry =>
      obtain rfl : node = parent := Option.some.inj (hfind.symm.trans hresolved.hfind)
      cases hdentry.symm.trans hresolved.hdentry
  | noNode _ _ _ _ hnode => cases hnode.symm.trans henv.hnode
  | noNodePath _ _ _ _ _ hnodePath => cases hnodePath.symm.trans henv.hnodePath
  | known node found hfound hknown hstatus hhead _ hresp =>
      obtain ⟨rfl, rfl⟩ := hfound.unique hresolved
      obtain ⟨old, hold⟩ := Option.isSome_iff_exists.mp hknown
      rw [hstatus, hresp, hhead, hword]
      exact ⟨rfl, table, rfl, h.again hfinds hdistinct hold⟩
  | added node found hfound hnew _ _ hstatus hhead _ hresp =>
      obtain ⟨rfl, rfl⟩ := hfound.unique hresolved
      rw [hstatus, hresp, hhead, hword, lookupNode_eq_entryOf (h.text_ne_nil hempty hfinds hnew)]
      exact ⟨rfl, _, rfl, h.first hfinds hnew⟩

/-- **A list of requests**: every reply is that of its object, and the table has grown by the requests. -/
theorem Grown.run {done : List Asked} {table : List Node} (h : Grown lookup nodes done table)
    (requests : List LookupRequest) (henv : ∀ request ∈ requests, AnsweredFrom lookup request.2)
    (hfinds : ∀ request ∈ requests, ∃ parent inode, Finds lookup nodes request.1.asked parent inode)
    (hdistinct : DistinctFinds lookup nodes (requests.map askedOf ++ done)) :
    Along lookupHead (fun head request => lookupReply head request = replyFrom lookup nodes request.1.asked)
        (some table) requests ∧
      ∃ table' done', runFrom lookupHead (some table) requests = some table' ∧
        Grown lookup nodes done' table' ∧
        ∀ asked, asked ∈ done' ↔ asked ∈ requests.map askedOf ∨ asked ∈ done := by
  induction requests generalizing done table with
  | nil => exact ⟨trivial, table, done, rfl, h, fun asked => by simp⟩
  | cons request requests ih =>
      obtain ⟨parent, inode, hfirst⟩ := hfinds request List.mem_cons_self
      have hone : DistinctFinds lookup nodes (request.1.asked :: done) := by
        apply hdistinct.mono
        intro asked hmem
        obtain rfl | hdone := List.mem_cons.mp hmem
        · simp
        · simp [hdone]
      obtain ⟨hreply, table', hhead, hgrown⟩ :=
        h.step hempty hfirst (henv request List.mem_cons_self) hone
      have hrest : DistinctFinds lookup nodes (requests.map askedOf ++ request.1.asked :: done) := by
        apply hdistinct.mono
        intro asked hmem
        simpa [or_left_comm, or_assoc] using hmem
      obtain ⟨halong, last, done', hlast, hgrown', hdone⟩ := ih hgrown
        (fun other hother => henv other (List.mem_cons_of_mem _ hother))
        (fun other hother => hfinds other (List.mem_cons_of_mem _ hother)) hrest
      refine ⟨⟨hreply.trans (replyFrom_eq hfirst).symm, ?_⟩, last, done', ?_, hgrown', fun asked => ?_⟩
      · rwa [hhead]
      · rw [← hlast, ← hhead]
        rfl
      · rw [hdone asked, List.map_cons, List.mem_cons, List.mem_cons]
        exact or_left_comm.trans or_assoc.symm

omit hempty in
theorem Grown.findNode_of {done done' : List Asked} {table table' : List Node}
    (h : Grown lookup nodes done table) (h' : Grown lookup nodes done' table')
    (hsame : ∀ asked, asked ∈ done → asked ∈ done') {ino : BitVec 64} {node : Node}
    (hnode : findNode table ino = some node) : findNode table' ino = some node := by
  cases hold : findNode nodes ino with
  | some old =>
      rw [h.old ino old hold] at hnode
      rw [h'.old ino old hold, hnode]
  | none =>
      rcases h.only ino node hnode with hfound | ⟨asked, parent, inode, hdone, hfinds, hino⟩
      · rw [hold] at hfound
        cases hfound
      · rw [← hino] at hold hnode ⊢
        rw [h.new asked parent inode hdone hfinds hold] at hnode
        rw [h'.new asked parent inode (hsame asked hdone) hfinds hold, hnode]

end Order

/-- A path is found for a handle in the one table exactly as in the other. -/
theorem fhToPath_congr {table table' : List Node} (hsame : ∀ ino, findNode table ino = findNode table' ino)
    (fh : VsnfsFh) (after : List Byte) (path : Buffer) (len : Nat) :
    vsnfsdFhToPath (some table) fh after path len = vsnfsdFhToPath (some table') fh after path len := by
  simp only [vsnfsdFhToPath, hsame]

/-- **Order and repetition of lookups do not matter.** Take a table that a run has reached, and two lists
that ask for the same, in whatever order and number: all handles are in the table, all path lookups
succeed in one tree, and different requests find different numbers. Then every request has the same
reply wherever it stands in either list, and afterwards every handle leads to the same path. -/
theorem lookup_order_irrelevant (events : List Event) (nodes : List Node)
    (hreached : (runFrom step Server.load events).head = some nodes) (lookup : List Byte → PathLookup)
    (hcwd : ∀ event ∈ events, SameEmpty lookup event) (left right : List LookupRequest)
    (hsame : ∀ asked, asked ∈ left.map askedOf ↔ asked ∈ right.map askedOf)
    (henv : ∀ request ∈ left ++ right, AnsweredFrom lookup request.2)
    (hfinds : ∀ asked ∈ left.map askedOf, ∃ parent inode, Finds lookup nodes asked parent inode)
    (hdistinct : DistinctFinds lookup nodes (left.map askedOf)) :
    Along lookupHead (fun head request => lookupReply head request = replyFrom lookup nodes request.1.asked)
        (some nodes) left ∧
      Along lookupHead (fun head request => lookupReply head request = replyFrom lookup nodes request.1.asked)
        (some nodes) right ∧
      ∀ fh after path len, vsnfsdFhToPath (runFrom lookupHead (some nodes) left) fh after path len =
        vsnfsdFhToPath (runFrom lookupHead (some nodes) right) fh after path len := by
  have hempty := run_emptyPaths hcwd
  rw [EmptyPaths, hreached] at hempty
  obtain ⟨hleft, table, done, htable, hgrown, hdone⟩ :=
    (grown_nil lookup nodes).run hempty left
      (fun request hrequest => henv request (List.mem_append_left _ hrequest))
      (fun request hrequest => hfinds _ (List.mem_map_of_mem hrequest))
      (by rwa [List.append_nil])
  obtain ⟨hright, table', done', htable', hgrown', hdone'⟩ :=
    (grown_nil lookup nodes).run hempty right
      (fun request hrequest => henv request (List.mem_append_right _ hrequest))
      (fun request hrequest => hfinds _ ((hsame _).mpr (List.mem_map_of_mem hrequest)))
      (by
        rw [List.append_nil]
        exact hdistinct.mono fun asked hargs => (hsame asked).mpr hargs)
  have hiff : ∀ asked, asked ∈ done ↔ asked ∈ done' := by
    intro asked
    rw [hdone, hdone', hsame]
  refine ⟨hleft, hright, fun fh after path len => ?_⟩
  rw [htable, htable']
  refine fhToPath_congr (fun ino => Option.ext fun node => ⟨fun hnode => ?_, fun hnode => ?_⟩) fh after
    path len
  · exact hgrown.findNode_of hgrown' (fun asked => (hiff asked).mp) hnode
  · exact hgrown'.findNode_of hgrown (fun asked => (hiff asked).mpr) hnode

/-- A tree with the directory `/a`, in which every one-letter name is a file numbered by its letter. -/
def letterTree (text : List Byte) : PathLookup :=
  match text with
  | [] => .failed .noEntry none
  | [0x2f, 0x61, 0x2f] => .found ⟨5, .dir⟩
  | [0x2f, 0x61, 0x2f, letter] => .found ⟨letter.setWidth 64, .reg⟩
  | _ => .failed .noEntry none

/-- A LOOKUP of a one-letter name in the mounted directory, with all that the buffers held. -/
def letterRequest (letter : Byte) (hletter : letter ≠ 0 ∧ letter ≠ slash) (junk : List Byte) : LookupRequest :=
  ((lookupOf letter hletter (.found ⟨5, .dir⟩)).1,
    { LookupEnv.answering (.found ⟨5, .dir⟩) with pathLookup := letterTree, junk := junk })

/-- The entry of the mounted directory. -/
def entryOfA : Node := ⟨5, [slash, 0x61, slash], firstRoot.hclean⟩

theorem letterRequest_finds (letter : Byte) (hletter : letter ≠ 0 ∧ letter ≠ slash) (junk : List Byte) :
    Finds letterTree [entryOfA] (letterRequest letter hletter junk).1.asked entryOfA ⟨letter.setWidth 64, .reg⟩ where
  hparent := by
    have hino : (zeroFh.print 5).ino [] = 5 := (VsnfsFh.ino_print_eq_iff zeroFh 5 []).mpr (by decide)
    change findNode [entryOfA] ((zeroFh.print 5).ino []) = some entryOfA
    rw [hino]
    decide
  hfound := rfl

/-- The names `x` and `y`, once each in this order, or `y` first and last. -/
theorem two_lookups_order_irrelevant :
    let mount : Event := .getroot ⟨⟨[slash, 0x61], by decide, by decide⟩⟩
      { GetrootEnv.answering (.found ⟨5, .dir⟩) with pathLookup := letterTree }
    let x := letterRequest 0x78 (by decide) []
    let y := letterRequest 0x79 (by decide) [1, 2, 3]
    (runFrom step Server.load [mount]).head = some [entryOfA] ∧
      ∀ fh after path len, vsnfsdFhToPath (runFrom lookupHead (some [entryOfA]) [x, y]) fh after path len =
        vsnfsdFhToPath (runFrom lookupHead (some [entryOfA]) [y, x, y]) fh after path len := by
  intro mount x y
  have hreached : (runFrom step Server.load [mount]).head = some [entryOfA] := by decide
  have hx := letterRequest_finds 0x78 (by decide) []
  have hy := letterRequest_finds 0x79 (by decide) [1, 2, 3]
  refine ⟨hreached, (lookup_order_irrelevant [mount] [entryOfA] hreached letterTree ?_ [x, y] [y, x, y]
    ?_ ?_ ?_ ?_).2.2⟩
  · intro event hevent pathLookup hmem
    rw [List.mem_singleton.mp hevent] at hmem
    cases hmem
    rfl
  · intro args
    simp only [List.map_cons, List.map_nil, List.mem_cons, List.not_mem_nil, or_false]
    tauto
  · intro request hrequest
    simp only [List.cons_append, List.nil_append, List.mem_cons, List.not_mem_nil, or_false] at hrequest
    rcases hrequest with rfl | rfl | rfl | rfl | rfl <;> exact ⟨rfl, rfl, rfl, rfl, rfl⟩
  · intro args hargs
    rcases List.mem_pair.mp hargs with rfl | rfl
    · exact ⟨_, _, hx⟩
    · exact ⟨_, _, hy⟩
  · intro first hfirst second hsecond parent inode parent' inode' hfinds hfinds' hino
    rcases List.mem_pair.mp hfirst with rfl | rfl <;> rcases List.mem_pair.mp hsecond with rfl | rfl
    · rfl
    · rw [(hfinds.unique hx).2, (hfinds'.unique hy).2] at hino
      exact absurd hino (by decide)
    · rw [(hfinds.unique hy).2, (hfinds'.unique hx).2] at hino
      exact absurd hino (by decide)
    · rfl

end Vsnfs
