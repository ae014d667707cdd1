import StagedPipeline.Channel.Handoff
import StagedPipeline.Channel.Reports
import StagedPipeline.Pack

/-!
# Conduits

Two stages that follow one another are connected by a conduit: a hand-off channel
for packs beside an error channel.
-/
namespace StagedPipeline

/-- The connection from one stage to the next. A place in `data` may hold no pack. -/
structure Conduit where
  data : Handoff (Option Pack) := {}
  errors : Reports
deriving DecidableEq, Repr

namespace Conduit

/-- A fresh conduit. -/
def create (capacity : UInt64) (interval : Int) : Except Fault Conduit :=
  (Reports.create capacity interval).map fun errors => { errors }

def closeData (c : Conduit) : Conduit := { c with data := c.data.close }

def closeErrors (c : Conduit) : Conduit := { c with errors := c.errors.close }

end Conduit
end StagedPipeline
