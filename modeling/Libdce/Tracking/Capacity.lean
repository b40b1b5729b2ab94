import Libdce.Tracking.ExactMap

/-!
# What the table guarantees within and beyond its capacity

Room for every registration is a property of the table alone; that no client
has more than ten engines or ten codecs open is a property of the clients. The
second implies the first as long as an unused slot is there when one is needed.
Beyond the capacity handles are returned to clients without being recorded.
-/

namespace Libdce.Tracking

open Foundation.SlotArray Foundation.GuardedRuns

/-- After the event no client has more than ten engines or ten codecs open, and
an unused slot is found when a client without a slot opens an engine. -/
@[reducible] def WithinCapacity (w : World) (ev : Event) : Prop :=
  (∀ x ∈ (w.step ev).ledger.opened, ((w.step ev).ledger.held x.kind x.owner).card ≤ 10) ∧
    match ev with
    | .engineOpen pid engine =>
        engine ≠ 0 → getClient w.clients pid = none → (getClient w.clients 0).isSome
    | _ => True

instance (w : World) : DecidablePred (WithinCapacity w) := Event.decidable

/-- The handle occurs in the array of the slot that carries its owner's pid. -/
def Tracked (t : Clients) (x : Holding) : Prop :=
  ∃ i, (t i).pid = x.owner ∧ ∃ j, (t i).cells x.kind j = x.handle

instance (t : Clients) (x : Holding) : Decidable (Tracked t x) :=
  inferInstanceAs (Decidable (∃ i, (t i).pid = x.owner ∧ ∃ j, (t i).cells x.kind j = x.handle))

/-- A client that may have one more handle has a null cell for it. -/
theorem Client.Mirrors.exists_free {c : Client} {l l' : Ledger} {p : Pid} {k : Kind} {h : Handle}
    (hm : c.Mirrors l p) (hnew : h ∉ l.held k p) (hheld : l'.held k p = insert h (l.held k p))
    (hle : (l'.held k p).card ≤ 10) : ∃ j, c.cells k j = 0 := by
  apply exists_free_of_card_lt
  have hcard := Finset.card_insert_of_notMem hnew
  have hstored : (occupied (c.cells k)).card = (l.held k p).card :=
    congrArg Multiset.card (hm.stored k)
  rw [hheld] at hle
  omega

/-- Within the capacity every registration finds room. -/
theorem WithinCapacity.hasRoom {w : World} {ev : Event} (h : WithinCapacity w ev)
    (hw : Exact w.clients w.ledger) (hlegal : w.Legal ev) : HasRoom w.clients ev := by
  obtain ⟨hle, hslot⟩ := h
  cases ev with
  | engineOpen pid engine =>
      intro he
      have hfresh := hlegal.2.resolve_left he
      rw [World.step_engineOpen _ _ he] at hle
      cases hi : getClient w.clients pid with
      | none => exact Or.inr ⟨rfl, Option.isSome_iff_exists.mp (hslot he hi)⟩
      | some i =>
          refine Or.inl ⟨i, rfl, ?_⟩
          refine (hw.mirrors_slot hlegal.1 hi).exists_free (k := .engine) (h := engine)
            (fun hmem => hfresh (Ledger.isOpen_of_mem (Ledger.mem_held.mp hmem))) ?_
            (hle ⟨.engine, pid, engine⟩ ?_)
          · rw [Ledger.held_insert, if_pos ⟨rfl, rfl⟩]
          · exact Finset.mem_insert_self _ _
  | viddec3Create pid engine codec =>
      intro hc
      have hfresh := hlegal.2.2.resolve_left hc
      rw [World.step_viddec3Create _ _ _ hc] at hle
      obtain ⟨i, hi⟩ := hw.covered _ hlegal.2.1
      refine ⟨i, hi, ?_⟩
      refine (hw.mirrors_slot hlegal.1 hi).exists_free (k := .codec) (h := codec)
        (fun hmem => hfresh (Ledger.isOpen_of_mem (Ledger.mem_held.mp hmem))) ?_
        (hle ⟨.codec, pid, codec⟩ ?_)
      · rw [Ledger.held_insert, if_pos ⟨rfl, rfl⟩]
      · exact Finset.mem_insert_self _ _
  | engineClose pid engine => trivial
  | viddec3Control pid codec => trivial
  | viddec3Process pid codec => trivial
  | viddec3Delete pid codec => trivial
  | obit pid => trivial

theorem exact_of_withinCapacity {evs : List Event}
    (run : Run World.step (fun w ev => w.Legal ev ∧ WithinCapacity w ev) World.zero evs) :
    Exact (final World.step World.zero evs).clients (final World.step World.zero evs).ledger :=
  run.invariant (I := fun w => Exact w.clients w.ledger) Exact.zero
    fun _ _ hw h => hw.step h.1 (h.2.hasRoom hw h.1)

/-- The table as a map from pids to open handles. -/
structure IsExactMap (w : World) : Prop where
  onePerPid : ∀ i j, (w.clients i).pid ≠ 0 → (w.clients i).pid = (w.clients j).pid → i = j
  hasSlot : ∀ x ∈ w.ledger.opened, ∃ i, (w.clients i).pid = x.owner
  nodup : ∀ i, (w.clients i).pid ≠ 0 → ∀ k, (entries ((w.clients i).cells k)).Nodup
  mem_iff : ∀ i, (w.clients i).pid ≠ 0 → ∀ k h,
    h ∈ entries ((w.clients i).cells k) ↔ ⟨k, (w.clients i).pid, h⟩ ∈ w.ledger.opened
  refs : ∀ i, (w.clients i).pid ≠ 0 → (w.clients i).refs.toNat =
    (entries (w.clients i).engines).length + (entries (w.clients i).codecs).length
  unused : ∀ i, (w.clients i).pid = 0 →
    ∀ j, (w.clients i).engines j = 0 ∧ (w.clients i).codecs j = 0

/-- In every state reached within the capacity the table is the exact map from
pids to open handles. -/
theorem table_is_exact_map {evs : List Event}
    (run : Run World.step (fun w ev => w.Legal ev ∧ WithinCapacity w ev) World.zero evs) :
    IsExactMap (final World.step World.zero evs) := by
  have hw := exact_of_withinCapacity run
  refine ⟨hw.unique, fun x hx => ?_, fun i hi k => ?_, fun i hi k h => ?_, fun i hi => ?_,
    fun i hi j => ?_⟩
  · obtain ⟨i, hfound⟩ := hw.covered x hx
    exact ⟨i, pid_of_getClient hfound⟩
  · have hnodup : (occupied ((final World.step World.zero evs |>.clients i).cells k)).Nodup := by
      rw [(hw.mirrors i hi).stored k]
      exact Finset.nodup _
    exact Multiset.coe_nodup.mp hnodup
  · rw [mem_entries]
    exact (hw.mirrors i hi).mem_cells_iff
  · have hm := hw.mirrors i hi
    have hengines : (entries (final World.step World.zero evs |>.clients i).engines).length = _ :=
      congrArg Multiset.card (hm.stored .engine)
    have hcodecs : (entries (final World.step World.zero evs |>.clients i).codecs).length = _ :=
      congrArg Multiset.card (hm.stored .codec)
    rw [hengines, hcodecs]
    exact hm.counted
  · exact ⟨congrFun (hw.unused i hi .engine) j, congrFun (hw.unused i hi .codec) j⟩

/-- A client closes its engine before it deletes the codec, comes back, and
dies; another client stays. -/
theorem table_is_exact_map_come_back :
    IsExactMap (final World.step World.zero
      [.engineOpen 7 100, .viddec3Create 7 100 200, .engineOpen 9 101, .engineClose 7 100,
        .viddec3Delete 7 200, .engineOpen 7 100, .viddec3Create 7 100 200, .obit 7]) :=
  table_is_exact_map (by decide +kernel)

/-- As long as every registration finds room, each open handle is in the slot of
the client it was returned to, and the obit of the client would release it. -/
theorem tracked_of_hasRoom {evs : List Event}
    (run : Run World.step (fun w ev => w.Legal ev ∧ HasRoom w.clients ev) World.zero evs)
    (x : Holding) (hx : x ∈ (final World.step World.zero evs).ledger.opened) :
    Tracked (final World.step World.zero evs).clients x ∧
      ⟨x.kind, x.handle⟩ ∈
        (dceCleanupCb ⟨(final World.step World.zero evs).clients, []⟩ .procObit x.owner).calls := by
  have hw := exact_of_hasRoom run
  obtain ⟨hp, hh⟩ := hw.nonzero x hx
  obtain ⟨i, hi⟩ := hw.covered x hx
  have hm := hw.mirrors_slot hp hi
  constructor
  · obtain ⟨_, j, hj⟩ := hm.mem_cells_iff.mpr hx
    exact ⟨i, pid_of_getClient hi, j, hj⟩
  · rw [dceCleanupCb_calls hp hw.unique]
    simp only [obitCalls, hi, List.nil_append]
    exact hm.mem_releases_iff.mpr hx

theorem tracked_of_hasRoom_codec :
    Tracked (final World.step World.zero
        [.engineOpen 7 100, .viddec3Create 7 100 200, .engineOpen 9 101]).clients
        ⟨.codec, 7, 200⟩ ∧
      ⟨.codec, 200⟩ ∈ (dceCleanupCb ⟨(final World.step World.zero
        [.engineOpen 7 100, .viddec3Create 7 100 200, .engineOpen 9 101]).clients, []⟩
        .procObit 7).calls :=
  tracked_of_hasRoom (by decide +kernel) ⟨.codec, 7, 200⟩ (by decide +kernel)

/-- A client that opens an eleventh engine. -/
def elevenEngines : List Event :=
  (List.range 11).map fun n => .engineOpen 7 (100 + BitVec.ofNat 32 n)

/-- Eleven clients; the last one also creates a codec on its engine. -/
def elevenClients : List Event :=
  (List.range 11).map (fun n =>
    .engineOpen (1 + BitVec.ofNat 32 n) (100 + BitVec.ofNat 32 n)) ++
    [.viddec3Create 11 110 200]

/-- Without room handles are lost: the eleventh engine of a client, the engine
of an eleventh client, and a codec of a client without a slot. -/
theorem untracked_beyond_capacity :
    (Run World.step World.Legal World.zero elevenEngines ∧
      ⟨.engine, 7, 110⟩ ∈ (final World.step World.zero elevenEngines).ledger.opened ∧
      ¬Tracked (final World.step World.zero elevenEngines).clients ⟨.engine, 7, 110⟩) ∧
    Run World.step World.Legal World.zero elevenClients ∧
      ⟨.engine, 11, 110⟩ ∈ (final World.step World.zero elevenClients).ledger.opened ∧
      ⟨.codec, 11, 200⟩ ∈ (final World.step World.zero elevenClients).ledger.opened ∧
      ¬Tracked (final World.step World.zero elevenClients).clients ⟨.engine, 11, 110⟩ ∧
      ¬Tracked (final World.step World.zero elevenClients).clients ⟨.codec, 11, 200⟩ := by
  decide +kernel

end Libdce.Tracking
