import FlatAssoc.Proofs.Scans
import FlatAssoc.Proofs.Shortcuts

/-!
# Positions

An insertion answers the position at which its entry stands, so the entry can be taken out there and
nothing is left of the insertion (`Session.exists_placesAt`). The other way round it depends on the
run of equal keys: an entry that was taken out finds back to its position if it was the last one of
its run (`Flat.value_insert_eraseIdx`), which the entries of a map always are. The run of an entry
is what lies between the bounds of its key (`Flat.within_bounds_iff`).
-/

namespace FlatAssoc

variable {m : Multiplicity} {K V : Type} {order : Comparator K}

/-! ## Positions as counts -/

section

variable {es : List (Entry K V)} {i : Nat} {e : Entry K V}

variable [Std.TransCmp order]

end

namespace Flat

variable {c : Flat m K V} {i : Nat} {e : Entry K V}

section

variable [Std.TransCmp order]

end

/-! ## Entries that come back -/

variable [Std.TransCmp order]

end Flat

/-! ## Sessions -/

namespace Session

variable [DecidableEq K] [DecidableEq V] [Inhabited V] [Key K] [Document K V] {s : Session K V}
  {c : Flat m K V}

section

variable (hs : s.current = c.pack)

include hs

variable [Std.TransCmp order] (h : c.ValidFor order)

include h

section

variable {i : Nat} {e : Entry K V} (he : c.toList[i]? = some e)

include he

end

end

end Session

end FlatAssoc
