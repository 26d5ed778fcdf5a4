/-
# Regions

A parallel state is active as a whole: after every tick each of its children has an active
leaf. The root is the one exception. A transition stays within a state that is not parallel,
but it cannot stay within anything above the root; so where a transition of a machine with a
parallel root leads from one region to another, or back into its own, all regions are left and
only the one on the way to the target is entered (`Regional`). The others come back no sooner
than with a new start.
-/

import Statechart.Proofs.Kernel.Chronicle

namespace Statechart

open Rom (Definition noIndex rootIndex)

namespace Kernel

variable {User : Type}

end Kernel

end Statechart
