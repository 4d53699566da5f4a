import Mathlib.Data.Set.Insert
import Mathlib.Logic.Relation
import Mathlib.Tactic.Common

/-! Many clients and one server that call each other over a network. The network keeps every message that
was ever sent: a query may be served never, once or many times and at any later moment, and so may a reply
be taken. Loss, duplication, delay and reordering are all runs of this system. A server that remembers no
replies answers a repeated query from the state it then has. -/

namespace Vsnfs.Base

variable {Client Local Store Query Reply : Type}

/-- What the parties may do. A client moves on its own, sends a query, or takes the reply to one of its
queries; the server turns a query into a new state and perhaps a reply. -/
structure Exchange (Local Store Query Reply : Type) where
  moves : Local → Local → Prop
  asks : Local → Query → Prop
  serves : Store → Query → Store → Option Reply → Prop
  takes : Local → Query → Reply → Local → Prop

/-- The states of the parties and all messages so far. -/
structure Net (Client Local Store Query Reply : Type) where
  locals : Client → Local
  store : Store
  asked : Set (Client × Query)
  replied : Set (Client × Query × Reply)

/-- Nothing was sent yet. -/
def Net.start (locals : Client → Local) (store : Store) : Net Client Local Store Query Reply :=
  ⟨locals, store, ∅, ∅⟩

/-- The network with another state of one client. -/
def Net.setLocal [DecidableEq Client] (net : Net Client Local Store Query Reply) (client : Client)
    (state : Local) : Net Client Local Store Query Reply :=
  { net with locals := fun other => if other = client then state else net.locals other }

/-- One step of one party. -/
inductive NetStep [DecidableEq Client] (exchange : Exchange Local Store Query Reply)
    (net : Net Client Local Store Query Reply) : Net Client Local Store Query Reply → Prop where
  | move (client : Client) (state : Local) (h : exchange.moves (net.locals client) state) :
      NetStep exchange net (net.setLocal client state)
  | ask (client : Client) (query : Query) (h : exchange.asks (net.locals client) query) :
      NetStep exchange net { net with asked := insert (client, query) net.asked }
  | drop (client : Client) (query : Query) (store : Store) (hasked : (client, query) ∈ net.asked)
      (h : exchange.serves net.store query store none) : NetStep exchange net { net with store := store }
  | reply (client : Client) (query : Query) (store : Store) (reply : Reply)
      (hasked : (client, query) ∈ net.asked) (h : exchange.serves net.store query store (some reply)) :
      NetStep exchange net
        { net with store := store, replied := insert (client, query, reply) net.replied }
  | take (client : Client) (query : Query) (reply : Reply) (state : Local)
      (hreplied : (client, query, reply) ∈ net.replied)
      (h : exchange.takes (net.locals client) query reply state) :
      NetStep exchange net (net.setLocal client state)

/-- Any number of steps, in any order. -/
def NetRun [DecidableEq Client] (exchange : Exchange Local Store Query Reply) :
    Net Client Local Store Query Reply → Net Client Local Store Query Reply → Prop :=
  Relation.ReflTransGen (NetStep exchange)

/-- The parties respect a predicate on each kind of state and of message. -/
structure Exchange.Keeps (exchange : Exchange Local Store Query Reply) (OfLocal : Local → Prop)
    (OfStore : Store → Prop) (OfQuery : Query → Prop) (OfReply : Query → Reply → Prop) : Prop where
  moves : ∀ state state', OfLocal state → exchange.moves state state' → OfLocal state'
  asks : ∀ state query, OfLocal state → exchange.asks state query → OfQuery query
  serves : ∀ store query store' reply, OfStore store → OfQuery query →
    exchange.serves store query store' reply → OfStore store' ∧ ∀ sent ∈ reply, OfReply query sent
  takes : ∀ state query reply state', OfLocal state → OfQuery query → OfReply query reply →
    exchange.takes state query reply state' → OfLocal state'

/-- The predicates hold of every party and of every message that was ever sent. -/
structure Net.Holds (net : Net Client Local Store Query Reply) (OfLocal : Local → Prop)
    (OfStore : Store → Prop) (OfQuery : Query → Prop) (OfReply : Query → Reply → Prop) : Prop where
  locals : ∀ client, OfLocal (net.locals client)
  store : OfStore net.store
  asked : ∀ client query, (client, query) ∈ net.asked → OfQuery query
  replied : ∀ client query reply, (client, query, reply) ∈ net.replied → OfQuery query ∧ OfReply query reply

section Invariant

variable {OfLocal : Local → Prop} {OfStore : Store → Prop} {OfQuery : Query → Prop}
  {OfReply : Query → Reply → Prop}

theorem Net.start_holds {locals : Client → Local} {store : Store} (hlocals : ∀ client, OfLocal (locals client))
    (hstore : OfStore store) :
    (Net.start locals store : Net Client Local Store Query Reply).Holds OfLocal OfStore OfQuery OfReply :=
  ⟨hlocals, hstore, fun _ _ h => h.elim, fun _ _ _ h => h.elim⟩

variable [DecidableEq Client] {exchange : Exchange Local Store Query Reply}
  {net net' : Net Client Local Store Query Reply}

theorem Net.Holds.setLocal (h : net.Holds OfLocal OfStore OfQuery OfReply) (client : Client) {state : Local}
    (hstate : OfLocal state) : (net.setLocal client state).Holds OfLocal OfStore OfQuery OfReply := by
  refine ⟨fun other => ?_, h.store, h.asked, h.replied⟩
  simp only [Net.setLocal]
  split
  · exact hstate
  · exact h.locals other

/-- One step of any party keeps the predicates. -/
theorem NetStep.holds (hkeeps : exchange.Keeps OfLocal OfStore OfQuery OfReply)
    (hstep : NetStep exchange net net') (h : net.Holds OfLocal OfStore OfQuery OfReply) :
    net'.Holds OfLocal OfStore OfQuery OfReply := by
  cases hstep with
  | move client state hmove =>
      exact h.setLocal client (hkeeps.moves _ _ (h.locals client) hmove)
  | ask client query hask =>
      refine ⟨h.locals, h.store, fun other sent hmem => ?_, h.replied⟩
      obtain heq | hold := Set.mem_insert_iff.mp hmem
      · cases heq
        exact hkeeps.asks _ _ (h.locals client) hask
      · exact h.asked other sent hold
  | drop client query store hasked hserve =>
      have hserved := hkeeps.serves _ _ _ _ h.store (h.asked client query hasked) hserve
      exact ⟨h.locals, hserved.1, h.asked, h.replied⟩
  | reply client query store reply hasked hserve =>
      have hquery := h.asked client query hasked
      have hserved := hkeeps.serves _ _ _ _ h.store hquery hserve
      refine ⟨h.locals, hserved.1, h.asked, fun other sent answer hmem => ?_⟩
      obtain heq | hold := Set.mem_insert_iff.mp hmem
      · cases heq
        exact ⟨hquery, hserved.2 reply rfl⟩
      · exact h.replied other sent answer hold
  | take client query reply state hreplied htake =>
      obtain ⟨hquery, hreply⟩ := h.replied client query reply hreplied
      exact h.setLocal client (hkeeps.takes _ _ _ _ (h.locals client) hquery hreply htake)

/-- **The network rule.** Predicates that every party respects hold in every state that any run reaches,
whatever is lost, repeated, delayed or reordered. -/
theorem NetRun.holds (hkeeps : exchange.Keeps OfLocal OfStore OfQuery OfReply)
    (hrun : NetRun exchange net net') (h : net.Holds OfLocal OfStore OfQuery OfReply) :
    net'.Holds OfLocal OfStore OfQuery OfReply := by
  induction hrun with
  | refl => exact h
  | tail _ hstep ih => exact hstep.holds hkeeps ih

end Invariant

end Vsnfs.Base
