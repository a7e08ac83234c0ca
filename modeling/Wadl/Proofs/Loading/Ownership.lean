import Wadl.Loading.Loader

/-!
# The clients that a loader owns

What becomes of a `Loader` does not depend on what it finds: a load is a search, which the loader
takes no part in, and a step of the loader (`load_eq_map`), and so are calls one after the other
(`serve_eq_map`). The steps keep a loader that was given a web loader as it is
(`foldl_after_start_some`). One that was given none has let go of closed clients only, and of the
web loader that it has, it is the owner (`MakesOwn`). `clients_owned` says what follows for the
clients that are open.
-/

namespace Wadl

/-- A web loader leaves a client alone that it was given. -/
theorem WebLoader.close_ofClient (client : WebClient) : (ofClient client).close = ofClient client :=
  rfl

/-- A closed client stays as it is. -/
theorem WebClient.closed_eq_self {c : WebClient} (h : c.isOpen = false) : c.closed = c := by
  rw [closed, ← h]

namespace Loader

/-! ## Calls -/

/-- What can be asked of a loader. -/
inductive Call where
  | load (uri : String)
  | close
  deriving DecidableEq, Repr

/-- The loader after a call. -/
def after (l : Loader) : Call → Loader
  | .load uri => if isWeb? uri = some true then l.withWeb.1 else l
  | .close => l.close

section Monadic

variable {m : Type → Type} [Monad m]

/-- What a loader finds at a URI. -/
def find (world : World m) (l : Loader) (uri : String) : Noticing m (Except LoadError Xml.Node) :=
  match isWeb? uri with
  | none => return .error .badUri
  | some false => loadFile world uri
  | some true => l.withWeb.2.load world uri

/-- Calls in their order: what the loads find, and the loader after them. -/
def serve (world : World m) (l : Loader) :
    List Call → Noticing m (List (Except LoadError Xml.Node) × Loader)
  | [] => return ([], l)
  | .load uri :: calls => do
    let (found, l) ← l.load world uri
    let (rest, l) ← l.serve world calls
    return (found :: rest, l)
  | .close :: calls => l.close.serve world calls

variable [LawfulMonad m] (world : World m)

/-- Loading yields what is found, and the state after the call. -/
theorem load_eq_map (l : Loader) (uri : String) :
    l.load world uri = (·, l.after (.load uri)) <$> l.find world uri := by
  rw [load, find, after]
  split
  · rename_i h
    simp [h]
  · rename_i h
    simp [h]
  · rename_i h
    simp [h]

/-- Serving calls yields what is found, and the state after all of them. -/
theorem serve_eq_map (l : Loader) (calls : List Call) :
    ∃ found, l.serve world calls = (·, calls.foldl after l) <$> found := by
  induction calls generalizing l with
  | nil => exact ⟨pure [], by simp [serve]⟩
  | cons call calls ih =>
    cases call with
    | load uri =>
      obtain ⟨rest, hrest⟩ := ih (l.after (.load uri))
      refine ⟨(do return (← l.find world uri) :: (← rest)), ?_⟩
      rw [serve, load_eq_map]
      simp [hrest]
    | close => exact ih l.close

end Monadic

/-! ## Loaders that were given a web loader -/

/-- A loader that was given a client never changes state. -/
theorem after_start_some (w : WebLoader) (call : Call) :
    (start (some w)).after call = start (some w) := by
  cases call with
  | load uri => exact ite_self _
  | close => rfl

theorem foldl_after_start_some (w : WebLoader) (calls : List Call) :
    calls.foldl after (start (some w)) = start (some w) := by
  induction calls with
  | nil => rfl
  | cons call calls ih => rw [List.foldl_cons, after_start_some, ih]

/-! ## Loaders that make their own -/

/-- A loader that was given no web loader has none, or has one that it owns and that is as it was
made. The clients that it let go are closed. -/
inductive MakesOwn : Loader → Prop where
  | idle {released : List WebClient} (closed : ∀ c ∈ released, c.isOpen = false) :
    MakesOwn { web := none, owns := false, released }
  | ready {released : List WebClient} (closed : ∀ c ∈ released, c.isOpen = false) :
    MakesOwn { web := some WebLoader.fresh, owns := true, released }

namespace MakesOwn

variable {l : Loader}

theorem start_none : MakesOwn (start none) := idle (by simp)

theorem withWeb (h : MakesOwn l) : MakesOwn l.withWeb.1 := by
  cases h with
  | idle closed => exact ready closed
  | ready closed => exact ready closed

theorem close (h : MakesOwn l) : MakesOwn l.close := by
  cases h with
  | idle closed => exact idle closed
  | ready closed => exact idle (List.forall_mem_append.2 ⟨closed, List.forall_mem_singleton.2 rfl⟩)

/-- A call keeps a loader one that makes its own clients. -/
theorem after (h : MakesOwn l) (call : Call) : MakesOwn (l.after call) := by
  cases call with
  | load uri =>
    rw [Loader.after]
    split
    · exact h.withWeb
    · exact h
  | close => exact h.close

/-- So do calls in a row. -/
theorem foldl_after (h : MakesOwn l) (calls : List Call) :
    MakesOwn (calls.foldl Loader.after l) := by
  induction calls generalizing l with
  | nil => exact h
  | cons call calls ih => exact ih (h.after call)

section Clients

variable {released : List WebClient}

theorem clients_idle : ({ web := none, owns := false, released } : Loader).clients = released :=
  List.append_nil _

theorem clients_ready : ({ web := some WebLoader.fresh, owns := true, released } : Loader).clients =
    released ++ [WebLoader.fresh.client] := rfl

variable (closed : ∀ c ∈ released, c.isOpen = false)

include closed

theorem any_open_eq_false : released.any (·.isOpen) = false :=
  List.any_eq_false.2 fun c hc => Bool.not_eq_true _ ▸ closed c hc

theorem filter_open_eq_nil : released.filter (·.isOpen) = [] :=
  List.filter_eq_nil_iff.2 fun c hc => Bool.not_eq_true _ ▸ closed c hc

theorem map_closed_eq_self : released.map WebClient.closed = released :=
  (List.map_congr_left fun c hc => WebClient.closed_eq_self (closed c hc)).trans (List.map_id _)

end Clients

/-- At most one of its clients is open at a time. -/
theorem length_open_le (h : MakesOwn l) : (l.clients.filter (·.isOpen)).length ≤ 1 := by
  cases h with
  | idle closed =>
    rw [clients_idle, filter_open_eq_nil closed]
    exact Nat.zero_le 1
  | ready closed =>
    rw [clients_ready, List.filter_append, filter_open_eq_nil closed]
    exact List.length_filter_le _ _

/-- Closing closes the client that is open. -/
theorem clients_close (h : MakesOwn l) : l.close.clients = l.clients.map WebClient.closed := by
  cases h with
  | idle closed =>
    rw [Loader.close, if_neg Bool.false_ne_true, clients_idle, map_closed_eq_self closed]
  | ready closed =>
    rw [clients_ready, List.map_append, map_closed_eq_self closed]
    exact clients_idle

/-- Services are asked with the last client, which is open, and is made if none is. -/
theorem clients_withWeb (h : MakesOwn l) :
    l.withWeb.2.client.isOpen = true ∧ l.withWeb.1.clients.getLast? = some l.withWeb.2.client ∧
      l.withWeb.1.clients =
        if l.clients.any (·.isOpen) then l.clients else l.clients ++ [WebLoader.fresh.client] := by
  cases h with
  | idle closed =>
    rw [clients_idle, any_open_eq_false closed]
    exact ⟨rfl, List.getLast?_concat, rfl⟩
  | @ready released closed =>
    have hopen : (released ++ [WebLoader.fresh.client]).any (·.isOpen) = true := by
      simp [WebLoader.fresh]
    rw [clients_ready, hopen]
    exact ⟨rfl, List.getLast?_concat, rfl⟩

end MakesOwn

/-- Whatever is asked of a loader, it stays as it is if it was given a web loader, and asks services
with that. One that was given none has one client open at most, and none after it is closed; it asks
services with the client that is open, and with a new one if there is none. Loading from files makes
no client. -/
theorem clients_owned {m : Type → Type} [Monad m] [LawfulMonad m] (world : World m)
    (given : Option WebLoader) (calls : List Call) :
    let l := calls.foldl after (start given)
    (∃ found, (start given).serve world calls = (·, l) <$> found) ∧
    (∀ uri, isWeb? uri = some false → l.load world uri = (·, l) <$> loadFile world uri) ∧
    (∀ uri, isWeb? uri = none → l.load world uri = return (.error .badUri, l)) ∧
    (∀ w, given = some w → l = start given ∧
      ∀ uri, isWeb? uri = some true → l.load world uri = (·, l) <$> w.load world uri) ∧
    (∀ client, (WebLoader.ofClient client).close = WebLoader.ofClient client) ∧
    (given = none → (l.clients.filter (·.isOpen)).length ≤ 1 ∧
      (l.close.clients = l.clients.map WebClient.closed) ∧
      ∀ uri, isWeb? uri = some true → ∃ (w : WebLoader) (l' : Loader),
        l.load world uri = (·, l') <$> w.load world uri ∧
        w.client.isOpen = true ∧ l'.clients.getLast? = some w.client ∧
        l'.clients = if l.clients.any (·.isOpen) then l.clients
          else l.clients ++ [WebLoader.fresh.client]) := by
  intro l
  refine ⟨serve_eq_map world _ calls, fun uri hfile => ?_, fun uri hbad => ?_, ?_,
    WebLoader.close_ofClient, ?_⟩
  · rw [load_eq_map, after, if_neg (by rw [hfile]; decide), find, hfile]
  · rw [load, hbad]
  · rintro w rfl
    have hl : l = start (some w) := foldl_after_start_some w calls
    refine ⟨hl, fun uri hweb => ?_⟩
    rw [load_eq_map, hl, after_start_some, find, hweb]
    rfl
  · rintro rfl
    have h : MakesOwn l := MakesOwn.start_none.foldl_after calls
    refine ⟨h.length_open_le, h.clients_close,
      fun uri hweb => ⟨l.withWeb.2, l.withWeb.1, ?_, h.clients_withWeb⟩⟩
    rw [load_eq_map, after, if_pos hweb, find, hweb]

/-- A world without files whose services cannot be reached. -/
def deadWorld : World Id where
  bytesAt _ := .error .notFound
  service _ := .error "Connection refused"

/-- Calls that ask a service again after closing. -/
def reopening : List Call :=
  [.load "http://host/api.wadl", .close, .load "main.wadl", .load "https://host/api.wadl"]

theorem clients_owned_reopening :
    let l := reopening.foldl after (start none)
    l.clients = [WebLoader.fresh.client.closed, WebLoader.fresh.client] ∧
      (l.clients.filter (·.isOpen)).length ≤ 1 ∧
      ∃ found, (start none).serve deadWorld reopening = (·, l) <$> found :=
  have howned := clients_owned deadWorld none reopening
  ⟨by decide +kernel, (howned.2.2.2.2.2 rfl).1, howned.1⟩

end Loader

end Wadl
