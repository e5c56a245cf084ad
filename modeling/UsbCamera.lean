import UsbCamera.LabelledRun
import UsbCamera.CameraState
import UsbCamera.CameraWorld
import UsbCamera.ProgramSteps
import UsbCamera.ProgramProgress
import UsbCamera.UserThread
import UsbCamera.StopDelivery
import UsbCamera.ObjectLifetime
import UsbCamera.BufferOwnership
import UsbCamera.CaptureSession
import UsbCamera.DeviceAccounting
import UsbCamera.FailFastList
import UsbCamera.JavaCamera
import UsbCamera.EncoderRegistry
import UsbCamera.CheckedInt
import UsbCamera.CountedLoop
import UsbCamera.StoreLog
import UsbCamera.FrameConversion
import UsbCamera.NegotiatedFormat
import UsbCamera.PreviewPicture
import UsbCamera.CenterCrop
import UsbCamera.EncoderPicture
import UsbCamera.MutexExclusion
import UsbCamera.PreviewWindow
import UsbCamera.EncoderSnapshot
import UsbCamera.CropPicture
import UsbCamera.NotificationProtocol
import UsbCamera.CallbackFailure
import UsbCamera.PreviewSlot
import UsbCamera.OpenRollback
import UsbCamera.BufferIndices
import UsbCamera.ClientThreads
import UsbCamera.LockOrder
import UsbCamera.FirstCaptureNotice
import UsbCamera.PlanarPicture
import UsbCamera.PreviewCopySize
import UsbCamera.PackedPicture
import UsbCamera.Saturation
import UsbCamera.ColourConversion
import UsbCamera.CharSignedness
import UsbCamera.SamePicture
import UsbCamera.PreviewBrackets
import UsbCamera.SizeArithmetic
import UsbCamera.NotificationDelivery
import UsbCamera.RecordedStream
import UsbCamera.FrameMemory
import UsbCamera.FrameDelivery
import UsbCamera.DeliveredPictures
import UsbCamera.DrawsDefined
import UsbCamera.OpenedSession
import UsbCamera.LockHolding
import UsbCamera.Standstill
import UsbCamera.SerialRegistry
import UsbCamera.CaptureWindDown
import UsbCamera.SessionHistory
import UsbCamera.CalmClients
import UsbCamera.SectionLength
import UsbCamera.RecorderLifetime
import UsbCamera.MainActivity
import UsbCamera.FrameRecovery
import UsbCamera.FrameRounds
