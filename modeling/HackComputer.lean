import HackComputer.Main
import HackComputer.Proofs.Vm.Fragments
import HackComputer.Proofs.Vm.Blocks
import HackComputer.Proofs.Vm.Placement
import HackComputer.Proofs.Vm.Simulation
import HackComputer.Proofs.Vm.CallFrames
import HackComputer.Proofs.Vm.Grammar
import HackComputer.Proofs.Vm.SourceNames
import HackComputer.Proofs.Vm.LabelNames
import HackComputer.Proofs.Assembly.Layout
import HackComputer.Proofs.Vm.StaticCells
import HackComputer.Proofs.Assembly.Grammar
import HackComputer.Proofs.Assembly.Reading
import HackComputer.Proofs.Vm.AsmFile
import HackComputer.Proofs.Vm.Spelling
import HackComputer.Proofs.Isa.Encoding
import HackComputer.Proofs.Text.Binary
import HackComputer.Proofs.Assembly.Image
import HackComputer.Proofs.Assembly.AddressWidth
import HackComputer.Proofs.Machine.Halting
import HackComputer.Proofs.Assembly.Respelling
import HackComputer.Proofs.Assembly.SymbolLookup
import HackComputer.Proofs.Vm.Tiling
import HackComputer.Proofs.Watch.Observation
import HackComputer.Proofs.Watch.Bindings
import HackComputer.Proofs.Vm.Comparisons
import HackComputer.Proofs.Machine.Budget
import HackComputer.Proofs.Machine.HaltReport
import HackComputer.Proofs.FirstFailure
import HackComputer.Proofs.Text.Normal
import HackComputer.Proofs.Vm.SourceLines
import HackComputer.Proofs.Vm.Refusals
import HackComputer.Proofs.Assembly.PredefinedNames
import HackComputer.Proofs.Machine.Strict
import HackComputer.Proofs.Vm.LabelDraws
import HackComputer.Proofs.Cli.Delivery
