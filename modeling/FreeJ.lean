import FreeJ.Links
import FreeJ.Transition
import FreeJ.Loops
import FreeJ.Linklist
import FreeJ.LinklistShape
import FreeJ.Selection
import FreeJ.LinklistPositions
import FreeJ.LinklistEdits
import FreeJ.LinklistClear
import FreeJ.CString
import FreeJ.Completion
import FreeJ.CommandHistory
import FreeJ.CommandLine
import FreeJ.Factory
import FreeJ.FactoryRun
import FreeJ.Screens
import FreeJ.MachineInt
import FreeJ.Blitter
import FreeJ.Memory
import FreeJ.FileBrowse
import FreeJ.Freeframe
import FreeJ.GeneratorLayer
import FreeJ.SoftScreen
import FreeJ.LayerBlits
import FreeJ.SoftScreenRun
import FreeJ.SdlScreen
import FreeJ.Mutex
import FreeJ.Logging
import FreeJ.ClosureQueue
import FreeJ.ThreadedQueue
import FreeJ.SyncCalls
import FreeJ.SyncClosure
import FreeJ.AudioRing
import FreeJ.OggAudio
import FreeJ.WordCells
import FreeJ.AudioMux
import FreeJ.MuxFrames
import FreeJ.MuxSafety
import FreeJ.Callback
import FreeJ.JSyncThread
import FreeJ.OscCtrl
import FreeJ.EncoderLoop
import FreeJ.Filedump
import FreeJ.ColourConvert
import FreeJ.TheoraPlanes
import FreeJ.Resampling
import FreeJ.RelativeSeek
import FreeJ.SeekMarks
import FreeJ.WiiController
import FreeJ.RowEdits
import FreeJ.SlwReadline
import FreeJ.TextEditor
import FreeJ.SlwLog
import FreeJ.SdlEvents
import FreeJ.BinaryFloats
import FreeJ.FloatText
import FreeJ.BlitParameters
import FreeJ.ConsoleParams
import FreeJ.OffScreen
import FreeJ.FrameSize
import FreeJ.ScreenCoords
import FreeJ.Sleeps
import FreeJ.OscSend
import FreeJ.ListenerCalls
import FreeJ.Iterator
import FreeJ.LayerIterators
import FreeJ.ContextReset
import FreeJ.FilterApply
import FreeJ.InnerWheel
import FreeJ.Combining
import FreeJ.Mmx
import FreeJ.ImageFilter
import FreeJ.LinearBlits
import FreeJ.Compositing
import FreeJ.Rendering
import FreeJ.Paging
import FreeJ.SkeletonPackets
import FreeJ.OggMux
import FreeJ.OggStream
import FreeJ.OggFile
import FreeJ.OggEncoder
import FreeJ.Copying
import FreeJ.FastMemcpy
