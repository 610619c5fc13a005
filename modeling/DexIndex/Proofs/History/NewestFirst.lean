import DexIndex.Proofs.History.Pages
import Mathlib.Data.List.Pairwise

/-!
# The latest fills

A page has the newest slots first and leaves out no fill of a newer slot than it has. Within a slot,
however, the keys of an index ascend, so that the earliest fills of a slot come first and the latest
ones are cut off. A page is the latest fills in descending order of their places just if none of its
fills shares its slot with a fill of another place (`Writer.Durable.page_latest_iff`).
-/

namespace DexIndex

namespace FillKey.Precedes
variable {a b : FillKey}

theorem slot_le (h : a.Precedes b) : b.place.slot ≤ a.place.slot := by
  rcases h with hslot | ⟨hslot, _⟩
  · exact UInt64.le_of_lt hslot
  · exact hslot ▸ UInt64.le_refl _

theorem before_or_eq (h : a.Precedes b) (hslot : a.place.slot = b.place.slot) :
    a.place.Before b.place ∨ a.place = b.place := by
  rcases h with hlt | ⟨_, htrx | ⟨htrx, hinst | ⟨hinst, _⟩⟩⟩
  · exact absurd (hslot ▸ hlt) (UInt64.lt_irrefl _)
  · exact .inl (.inr ⟨hslot, .inl htrx⟩)
  · exact .inl (.inr ⟨hslot, .inr ⟨htrx, hinst⟩⟩)
  · exact .inr (Place.eq_iff.mpr ⟨hslot, htrx, hinst⟩)

theorem not_before_iff (h : a.Precedes b) :
    ¬a.place.Before b.place ↔ (a.place.slot = b.place.slot → a.place = b.place) := by
  constructor
  · intro hbefore hslot
    exact (h.before_or_eq hslot).resolve_left hbefore
  · intro hplace hbefore
    by_cases hslot : a.place.slot = b.place.slot
    · rw [hplace hslot] at hbefore
      exact b.place.not_before_self hbefore
    · rcases hbefore with hlt | ⟨heq, _⟩
      · exact UInt64.not_lt.mpr h.slot_le hlt
      · exact hslot heq

end FillKey.Precedes

namespace FillRecord
variable {page all : List FillRecord}

/-- Whether a page is the latest of all fills in descending order: no fill on it comes before a later
one, and none that is left out is later than one on the page. -/
structure Latest (page all : List FillRecord) : Prop where
  descending : page.Pairwise fun a b => ¬a.ref.place.Before b.ref.place
  first : ∀ a ∈ page, ∀ b ∈ all, b ∉ page → ¬a.ref.place.Before b.ref.place

theorem precedes_of_left_out (h : all.Pairwise fun a b => a.key.Precedes b.key) {limit : Nat}
    {a b : FillRecord} (ha : a ∈ all.take limit) (hb : b ∈ all) (hout : b ∉ all.take limit) :
    a.key.Precedes b.key := by
  rw [← List.take_append_drop limit all] at h hb
  exact (List.pairwise_append.mp h).2.2 a ha b ((List.mem_append.mp hb).resolve_left hout)

theorem latest_take_iff (h : all.Pairwise fun a b => a.key.Precedes b.key) (limit : Nat) :
    Latest (all.take limit) all ↔ ∀ a ∈ all.take limit, ∀ b ∈ all,
      a.ref.place.slot = b.ref.place.slot → a.ref.place = b.ref.place := by
  have hpage : (all.take limit).Pairwise fun a b => a.key.Precedes b.key :=
    h.sublist (List.take_sublist ..)
  constructor
  · intro hlatest a ha b hb hslot
    by_cases hout : b ∈ all.take limit
    · -- both are on the page, one before the other
      have hsymm : Std.Symm fun x y : FillRecord =>
          x.ref.place.slot = y.ref.place.slot → x.ref.place = y.ref.place :=
        ⟨fun _ _ hxy heq => (hxy heq.symm).symm⟩
      have hsame : (all.take limit).Pairwise fun x y =>
          x.ref.place.slot = y.ref.place.slot → x.ref.place = y.ref.place :=
        (hpage.and hlatest.descending).imp fun ⟨hprecedes, hlater⟩ =>
          hprecedes.not_before_iff.mp hlater
      exact hsame.forall_of_forall (fun _ _ _ => rfl) ha hout hslot
    · exact (precedes_of_left_out h ha hb hout).not_before_iff.mp (hlatest.first a ha b hb hout) hslot
  · intro hsame
    refine ⟨hpage.imp_of_mem fun ha hb hprecedes => ?_, fun a ha b hb hout => ?_⟩
    · exact hprecedes.not_before_iff.mpr (hsame _ ha _ (List.mem_of_mem_take hb))
    · exact (precedes_of_left_out h ha hb hout).not_before_iff.mpr (hsame a ha b hb)

end FillRecord

/-- A page has as many of the fills that the query finds as the limit allows. It has those of the newest
slots, and newer slots before older ones, but within a slot the earlier places before the later ones. So it
is the latest of the fills in descending order of their places just if none of its fills shares its slot
with one of another place. -/
theorem Writer.Durable.page_latest_iff {w : Writer} {l : Ledger} {log : List Entry}
    (h : Durable w l log) (q : FillQuery) :
    ∃ all : List FillRecord, all.Nodup ∧ (∀ r, r ∈ all ↔ q.Finds log r) ∧
      ∀ limit, ∃ page : List FillRecord,
        l.store.table.fills q limit = .ok ⟨page, limit < all.length⟩ ∧
        page.length = min limit all.length ∧ page.Nodup ∧ page ⊆ all ∧
        (page.Pairwise fun a b => b.ref.place.slot ≤ a.ref.place.slot) ∧
        (∀ a ∈ page, ∀ b ∈ all, b ∉ page → b.ref.place.slot ≤ a.ref.place.slot) ∧
        (page.Pairwise fun a b => a.ref.place.slot = b.ref.place.slot →
          a.ref.place.Before b.ref.place ∨ a.ref.place = b.ref.place) ∧
        (FillRecord.Latest page all ↔ ∀ a ∈ page, ∀ b ∈ all,
          a.ref.place.slot = b.ref.place.slot → a.ref.place = b.ref.place) := by
  obtain ⟨all, hsorted, hmem, hpages⟩ := h.logged.fills_found q
  have hnodup := FillRecord.nodup_of_pairwise_precedes hsorted
  refine ⟨all, hnodup, hmem, fun limit => ⟨all.take limit, hpages limit, ?_⟩⟩
  have hpage : (all.take limit).Pairwise fun a b => a.key.Precedes b.key :=
    hsorted.sublist (List.take_sublist ..)
  refine ⟨List.length_take, hnodup.sublist (List.take_sublist ..), List.take_subset .., ?_, ?_, ?_,
    FillRecord.latest_take_iff hsorted limit⟩
  · exact hpage.imp FillKey.Precedes.slot_le
  · exact fun a ha b hb hout => (FillRecord.precedes_of_left_out hsorted ha hb hout).slot_le
  · exact hpage.imp FillKey.Precedes.before_or_eq

namespace OneSlot
open TwoFills

/-- A fill in a transaction of one slot. -/
def record (seq trx : UInt64) : FillRecord :=
  ⟨key 4, key 1, ⟨⟨key 0, seq⟩, ⟨10, trx, 0⟩, "", .epoch⟩, ⟨.bid, false, 7, 1, 0, 0, 0, 0, ""⟩⟩

def earlier : FillRecord := record 6 0

def later : FillRecord := record 8 1

def events : BlockEvents :=
  ⟨10, "", .epoch, [earlier.entry.event, later.entry.event], [⟨key 1, key 4⟩], 0⟩

def written : Writer × Ledger := (writer.writeBlock ledger events .epoch).2

def flushed : Writer × Ledger := (written.1.flush written.2 .epoch).2

def log : List Entry := [earlier.entry, later.entry]

theorem durable : Writer.Durable flushed.1 flushed.2 log := by
  have hstart : Writer.Durable writer ledger [] := .start .default .default rfl
  have h := (hstart.write events .epoch).flush .epoch
  have hlog : [] ++ Writer.landed ledger.store.table (writer.writeBlock ledger events .epoch) ++
      Writer.landed written.2.store.table (written.1.flush written.2 .epoch) = log := by
    decide +kernel
  exact hlog ▸ h

theorem finds {r : FillRecord} (hlatest : Entry.latest? log r.entry.key = some r.entry)
    (hmarket : r.ref.order.market = key 0) : (FillQuery.byMarket (key 0)).Finds log r :=
  ⟨hlatest, r, (Entry.mem_of_latest? hlatest).1, decide_eq_true hmarket, rfl⟩

end OneSlot

open OneSlot TwoFills in
/-- Of two fills in a slot the earlier one is on a page for one fill, and the later one is cut off. -/
theorem Writer.page_latest_iff_of_one_slot :
    OneSlot.flushed.2.store.table.fills (.byMarket (key 0)) 1 = .ok ⟨[earlier], true⟩ ∧
      earlier.ref.place.Before later.ref.place ∧
      ∃ all : List FillRecord, later ∈ all ∧
        (∀ r, r ∈ all ↔ (FillQuery.byMarket (key 0)).Finds OneSlot.log r) ∧
        ¬FillRecord.Latest [earlier] all := by
  have hread : (OneSlot.flushed.2.store.table.fills (.byMarket (key 0)) 1).toOption =
      some ⟨[earlier], true⟩ := by
    decide +kernel
  obtain ⟨all, _, hmem, hpages⟩ := OneSlot.durable.page_latest_iff (.byMarket (key 0))
  obtain ⟨page, hpage, _, _, _, _, _, _, hiff⟩ := hpages 1
  rw [hpage] at hread
  obtain ⟨rfl, hmore⟩ := FillPage.mk.inj (Option.some.inj hread)
  have hlater : later ∈ all := (hmem later).mpr (OneSlot.finds (by decide +kernel) rfl)
  refine ⟨hmore ▸ hpage, .inr ⟨rfl, .inl (by decide)⟩, all, hlater, hmem, fun hlatest => ?_⟩
  have hplace := hiff.mp hlatest earlier List.mem_cons_self later hlater rfl
  exact absurd hplace (by decide)

end DexIndex
