import OpenGpui.Canvas.GraphIndexSession
import OpenGpui.Canvas.Durability
import OpenGpui.Form.Tickets
import OpenGpui.Form.Submission
import OpenGpui.Resource.Tickets
import OpenGpui.Canvas.UndoWalk
import OpenGpui.UiCore.VirtualizerResolvers
import OpenGpui.UiCore.VirtualizerRuns
import OpenGpui.UiCore.TableSorting
import OpenGpui.Keys.Shortcuts
import OpenGpui.Keys.PredicateText
import OpenGpui.Scene.PaintOrder
import OpenGpui.Docking.ViewportRegistration
import OpenGpui.Docking.SurfaceWindowLifecycle
import OpenGpui.Docking.PayloadRecoveryRuns
import OpenGpui.Docking.SurfaceChangeRuns
import OpenGpui.Canvas.SelectionScope
import OpenGpui.SumTree.TreeMapRuns
import OpenGpui.UiCore.SplitterResize
import OpenGpui.Docking.TabClose
import OpenGpui.Docking.CanonicalRuns
import OpenGpui.Docking.EdgeDockPlanning
import OpenGpui.Docking.Retention
import OpenGpui.Docking.WorkspaceMerge
import OpenGpui.Canvas.ChangeReplay
import OpenGpui.Canvas.RecordOrder
import OpenGpui.Docking.GraphLayout
import OpenGpui.Command.ScopeProjection
import OpenGpui.Command.Menu
import OpenGpui.Command.History
import OpenGpui.Command.Search
import OpenGpui.UiCore.TableIdentityKeys
import OpenGpui.UiCore.TableRowPinning
import OpenGpui.UiCore.TableFacetCounts
import OpenGpui.UiCore.SplitTreeCover
import OpenGpui.Canvas.ZOrder
import OpenGpui.Focus.TabGroups
import OpenGpui.Keys.Continuations
import OpenGpui.Keys.KeystrokeText
import OpenGpui.Text.LineTruncation
